import Mathlib.Data.List.Nodup
import OnePass.Proofs.Grammar.Unit
import OnePass.Proofs.Ty.Faithful
import OnePass.Proofs.Typing.Check

/-!
Accepted programs pass their checks again. Values are checked against their slots as they are read, with
the registry of that moment and while some calls have no targets yet. At the end of the unit, with the
registry and the targets it has then, the same checks succeed.
-/

namespace OnePass

open Typing

namespace Registry

/-- No struct has two fields of one name. -/
def DistinctFields (r : Registry) : Prop :=
  ∀ s fields, .struct s ∈ r.definitions global → s.layout = .fields fields →
    (fields.map (·.name)).Nodup

theorem DistinctFields.fields? {r : Registry} (hd : r.DistinctFields) (h : r.WellFormed) {id : ScopeId}
    (hid : r.Knows id) {name : String} {fields : List Field}
    (hf : r.fields? id name = .ok (some fields)) : (fields.map (·.name)).Nodup := by
  obtain ⟨s, hs, hlayout⟩ := exists_of_fields? hf
  exact hd s fields ((mem_structs_iff h hid).mp hs) hlayout

theorem DistinctFields.reaches {rd : Reading} {reg reg' : Registry} (h : reg.DistinctFields)
    (hreach : rd.Reaches reg reg') : reg'.DistinctFields := by
  intro s fields hs hlayout
  rcases hreach.definition_cases hs with hs | ⟨_, op, _, enters, hop⟩
  · exact h s fields hs hlayout
  · cases op <;> cases hop
    obtain ⟨_, _, hfields⟩ := enters
    exact (hfields fields hlayout).1

end Registry

namespace Typing

/-- The values of a struct fill its fields one by one. -/
def ConstructsInOrder (r : Registry) (scope : ScopeId) (struct : String) (entries : List Entry) : Prop :=
  ∃ fields, r.fields? scope struct = .ok (some fields) ∧
    List.Forall₂ (fun (field : Field) (e : Entry) => e.name = field.name ∧
      coerces r scope field.type e.value = .ok true) fields entries

/-- Where no two fields have one name, the field with the name of a value is the one in its place. -/
theorem Constructs.inOrder {r : Registry} {scope : ScopeId} {struct : String} {entries : List Entry}
    (hc : Constructs r scope struct entries) (hd : r.DistinctFields) (h : r.WellFormed)
    (hscope : r.Knows scope) : ConstructsInOrder r scope struct entries := by
  obtain ⟨fields, hfields, hnames, hfills⟩ := hc
  have names : List.Forall₂ (fun (field : Field) (e : Entry) => field.name = e.name) fields entries := by
    have hnames := hnames.symm
    rw [← List.forall₂_eq_eq_eq, List.forall₂_map_left_iff, List.forall₂_map_right_iff] at hnames
    exact hnames
  obtain ⟨hlength, hsame⟩ := List.forall₂_iff_zip.mp names
  refine ⟨fields, hfields, List.forall₂_iff_zip.mpr ⟨hlength, fun {field e} hmem => ?_⟩⟩
  obtain ⟨hfield, he⟩ := List.of_mem_zip hmem
  obtain ⟨named, hnamed, htakes⟩ := hfills e he
  have hname : named.name = e.name := by
    simpa using List.find?_some (p := fun f : Field => f.name == e.name) hnamed
  obtain rfl : named = field := List.inj_on_of_nodup_map (hd.fields? h hscope hfields)
    (List.mem_of_find?_eq_some hnamed) hfield (hname.trans (hsame hmem).symm)
  exact ⟨hname.symm, htakes⟩

end Typing

/-- What meets a slot in a part of a tree, its own parts aside, goes into it. -/
def Node.Checks (reg : Registry) (site : Site) : Node → Prop
  | .stmt (.variable d) =>
    d.scope = site.scope ∧ ∀ value ∈ d.value, Initializes reg d.scope d.type value
  | .stmt (.return value _) =>
    ∃ f, site.routine = some f ∧ Returns reg site.scope f.result value
  | .expr (.assign _ target value _) => Assigns reg site.scope target value
  | .expr (.construct _ internal entries _) =>
    Constructs reg site.scope internal entries ∧
      (reg.DistinctFields → ConstructsInOrder reg site.scope internal entries)
  | .expr (.index array index _) => Indexes reg site.scope array index
  | _ => True

namespace Reading

variable {rd : Reading} {reg : Registry} {source : Source} {site : Site}

/-- The type of a variable is written and takes the value, or it is that of the value but for marks. -/
theorem Types.takes_or_infers {mark : Token.Kind} {type : Ty} {value : Expr}
    (h : rd.Types reg site.scope mark type (some value)) (isMutable isGlobal : Bool) :
    let slot := type.withFlags { mutable := isMutable, global := isGlobal }
    mark = .colon ∧ slot.Sized ∧ coerces reg site.scope slot value = .ok true ∨
      mark = .assign ∧ ∃ t, infer reg site.scope value = .ok t ∧ slot.bare = t.bare := by
  rcases h with ⟨hmark, hwritten, _, _, hcheck⟩ | ⟨hmark, t, ht, _, rfl⟩
  · refine .inl ⟨hmark, Ty.hereditary_sized.setFlags.mpr hwritten.sized, ?_⟩
    rw [coerces_withFlags rfl rfl]
    exact Setting.coerces_of_checkDeclaration hcheck
  · exact .inr ⟨hmark, t, ht, by simp only [Ty.withFlags, Ty.rvalue, Ty.withoutFlags, Ty.bare_setFlags]⟩

theorem Types.initializes {mark : Token.Kind} {type : Ty} {value : Expr}
    (h : rd.Types reg site.scope mark type (some value)) (isMutable isGlobal : Bool) :
    Initializes reg site.scope (type.withFlags { mutable := isMutable, global := isGlobal }) value := by
  rcases h.takes_or_infers isMutable isGlobal with ⟨_, _, htakes⟩ | ⟨_, t, ht, hbare⟩
  · exact .inl htakes
  · exact .inr ⟨t, ht, Ty.agrees_of_bare _ _ hbare⟩

theorem Settled.checks {n : Node} (h : rd.Settled reg source site n) : n.Checks reg site := by
  obtain ⟨n₀, reg₀, wf₀, wf, hx, hk, hf, hn⟩ := h.formed
  have hg := reg.retargets source
  cases n with
  | block => trivial
  | stmt =>
      obtain ⟨s, rfl, hs⟩ := Node.stmt_of_mapCalls hn
      cases Stmt.becomes hs with
      | @«variable» d _ hd =>
          obtain ⟨value, rfl, hvalue⟩ := VarDecl.mapCalls_eq_ok hd
          obtain ⟨⟨hscope, _⟩, reg₁, type, name, mark, hready, htype, after, _, htypes⟩ := hf
          refine ⟨hscope, fun e' he' => ?_⟩
          obtain ⟨e, he, hmap⟩ := exists_mem_of_forall₂ hvalue (Option.mem_toList.mpr he')
          rw [Option.mem_toList.mp he] at htypes
          have checked := htypes.initializes d.mutable (reg₁.declares site.scope)
          rw [← htype] at checked
          have entered : reg₁.perform (.defineVariable site.scope _) = (.ok (), reg₀) := after
          have hx₁ := (Registry.extends_of_perform entered).trans hx
          exact hscope ▸ checked.later hx₁ hready.wellFormed wf hready.knows hg hmap
      | «return» hvalue =>
          obtain ⟨f, _, hroutine, hcheck⟩ := hf
          have returns := Setting.returns_of_checkReturn hcheck
          exact ⟨f, hroutine, returns.later hx wf₀ wf hk hg hvalue⟩
      | package | imports | «module» | function | struct | enum | cond | «while» | «for» | «break» | «continue»
      | block | expr => trivial
  | expr =>
      obtain ⟨e, rfl, he⟩ := Node.expr_of_mapCalls hn
      cases Expr.becomes he with
      | index harray hindex =>
          obtain ⟨⟨_, hcheck⟩, t, ht⟩ := hf
          obtain ⟨u, hu, helement⟩ := bind_eq_ok.mp ht
          have indexes : Indexes reg₀ site.scope _ _ :=
            ⟨Setting.integer_of_checkIndex hcheck, u, t, hu, orFault_eq_ok.mp helement⟩
          exact indexes.later hx wf₀ wf hk hg harray hindex
      | assign htarget hvalue =>
          obtain ⟨_, _, hcheck⟩ := hf
          have assigns := Setting.assigns_of_checkAssignment hcheck
          exact assigns.later hx wf₀ wf hk hg htarget hvalue
      | construct hentries =>
          obtain ⟨_, _, hcheck⟩ := hf
          have constructs :=
            (Setting.constructs_of_checkConstruction hcheck).later hx wf₀ wf hk hg hentries
          exact ⟨constructs, fun hd => constructs.inOrder hd wf (hx.knows hk)⟩
      | literal | identifier | «variadic» | member | call | binary | unary | array | lambda => trivial

end Reading

namespace Registry

/-- In an accepted program, whatever has to fit into a slot does so with the registry at the end: initial
values, results, assigned values, the values of structs and indices. -/
theorem read_rechecks {reg reg' : Registry} {source : Source} {p : Program} (h : reg.WellFormed)
    (hread : reg.read source = (.ok p, reg')) :
    Every (fun site n => n.Checks reg' site) {} (.block p.body) ∧
      (reg.DistinctFields → reg'.DistinctFields) := by
  obtain ⟨hreach, settled⟩ := read_settled (.ofWellFormed h) rfl (fun _ _ _ _ => trivial) hread
  exact ⟨(settled p rfl).imp fun _ _ hn => hn.checks, fun hd => hd.reaches hreach⟩

/-- Initial values with and without a type, one with a call of a function further down; results, one in a
function without a name; an assignment to a field. -/
theorem read_rechecks_forward :
    let source : Source := ⟨0, "unit.st",
      "struct P \x7b x: i32; a: i32[]; \x7d fn main(): i32 \x7b
        let p: P = P::\x7b x: 1, a: [2, 3] \x7d;
        let a = [p.x, later(p.x)];
        let f = (n: i32): i32 -> \x7b return a[n]; \x7d;
        p.x = f(0); return a[p.x]; \x7d
      fn later(n: i32): i32 \x7b return n; \x7d"⟩
    ∃ p reg, Registry.empty.read source = (.ok p, reg) ∧ p.body.calls.length = 2 ∧
      reg.DistinctFields ∧ Every (fun site n => n.Checks reg site) {} (.block p.body) := by
  intro source
  obtain ⟨p, reg, hread, hcalls⟩ :=
    exists_of_read .empty source (by rfl) (fun p _ => p.body.calls.length) (x := 2) (by decide +kernel)
  obtain ⟨hchecks, hdistinct⟩ := read_rechecks .empty hread
  exact ⟨p, reg, hread, hcalls, hdistinct (fun _ _ hs _ => nomatch hs), hchecks⟩

end Registry
end OnePass
