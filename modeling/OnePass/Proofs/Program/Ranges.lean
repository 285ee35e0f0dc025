import OnePass.Proofs.Program.Overload
import OnePass.Proofs.Program.Recheck
import OnePass.Proofs.Program.Resolution
import OnePass.Proofs.Typing.Ranges

/-!
Integers in accepted programs. Where a value has been checked against a slot, all integers in it are within it:
in a declaration with a type, as a result, in an assignment, in the value of a struct, and as arguments if the
function was chosen because its parameters take them. A declaration without a type has its type from the value,
and a function that is known by the types of the arguments is called whatever the arguments are; there it is
known of the first elements alone.
-/

namespace OnePass

open Typing

/-- An integer in a part of a tree, its own parts aside, has no more than 64 bits. -/
def Node.Fits : Node → Prop
  | .expr (.literal value _) => value.Fits
  | _ => True

/-- A variable that a statement declares stands in the tokens, in front of a mark. -/
def VarDecl.MarkedBy (reg : Registry) (tokens : List Token) (d : VarDecl) (mark : Token) : Prop :=
  ∃ v name, reg.variableIn? d.scope d.internal = some v ∧ v.symbol.span = name.span ∧
    [name, mark] <:+: Region.significant tokens

/-- The integers among the arguments of a call are within the parameters, or the function is known by the types
of the arguments. Then the first elements are known to be, unless the call is one of the entry point. -/
def Call.Ranged (reg : Registry) (c : Call) : Prop :=
  ∃ params, reg.expects? c.scope c.target = some params ∧
    ((∀ x ∈ params.zip c.args, Bounded x.1 x.2) ∨
      ∃ name ∈ reg.calleeNames c, c.target = .function (Name.overload name c.argTypes false) ∧
        (name ≠ "main" → ∀ x ∈ params.zip c.args, BoundedFirst x.1 x.2))

/-- The integers in a part of a tree, its own parts aside, are within the slots that they meet. -/
def Node.Ranged (reg : Registry) (tokens : List Token) (site : Site) : Node → Prop
  | .stmt (.variable d) =>
    ∃ mark, d.MarkedBy reg tokens mark ∧ ∀ value ∈ d.value,
      mark.kind = .colon ∧ Bounded d.type value ∨ mark.kind = .assign ∧ BoundedFirst d.type value
  | .stmt (.return value _) => ∀ e ∈ value, ∃ f, site.routine = some f ∧ Bounded f.result e
  | .expr (.assign _ target value _) => ∃ t, infer reg site.scope target = .ok t ∧ Bounded t value
  | .expr (.construct _ internal entries _) =>
    ∃ fields, reg.fields? site.scope internal = .ok (some fields) ∧ ∀ e ∈ entries,
      ∃ field, fields.find? (·.name == e.name) = some field ∧ Bounded field.type e.value
  | .expr (.call c) => c.Ranged reg
  | n => n.Fits

/-! ### Integers -/

theorem Typing.natAbs_lt_of_integer? {site : Site} {e : Expr} {n : Int} {long : Bool}
    (h : Every (fun _ n => n.Fits) site (.expr e)) (hn : e.integer? = some (n, long)) :
    n.natAbs < twoTo 64 := by
  fun_induction Expr.integer? e generalizing n with
  | case1 value long span =>
      obtain ⟨rfl, rfl⟩ := Prod.mk.inj (Option.some.inj hn)
      exact h.here
  | case2 operand span ih =>
      obtain ⟨m, hm, heq⟩ := Option.map_eq_some_iff.mp hn
      obtain ⟨rfl, hlong⟩ := Prod.mk.inj heq
      rw [Int.natAbs_neg]
      exact ih (h.child (List.mem_singleton_self _)) (hm.trans (by rw [← hlong]))
  | case3 => cases hn

theorem Every.of_meetsFirst {P : Site → Node → Prop} {site : Site} {slot t : Ty} {value e : Expr}
    (h : Every P site (.expr value)) (hm : MeetsFirst slot value t e) : Every P site (.expr e) := by
  induction hm with
  | whole => exact h
  | element _ ih => exact ih.child List.mem_cons_self

theorem Typing.lt_of_meetsFirst {site : Site} {slot : Ty} {value : Expr}
    (h : Every (fun _ n => n.Fits) site (.expr value)) :
    ∀ t e, MeetsFirst slot value t e → ∀ n long, e.integer? = some (n, long) → n < twoTo 64 := by
  intro t e hm n long hn
  have := natAbs_lt_of_integer? (h.of_meetsFirst hm) hn
  omega

theorem Typing.infer_of_mem_zip {reg : Registry} {scope : ScopeId} {ps ts : List Ty} {as : List Expr}
    (hshapes : Ty.shapes ps = Ty.shapes ts)
    (hinfer : List.Forall₂ (fun a t => infer reg scope a = .ok t) as ts) :
    ∀ x ∈ ps.zip as, ∃ u, infer reg scope x.2 = .ok u ∧ x.1.shape = u.shape := by
  rw [Ty.shapes_eq_map, Ty.shapes_eq_map] at hshapes
  induction hinfer generalizing ps with
  | nil => simp
  | cons ht _ ih =>
      obtain _ | ⟨p, ps⟩ := ps
      · simp
      · rw [List.map_cons, List.map_cons, List.cons.injEq] at hshapes
        rw [List.zip_cons_cons, List.forall_mem_cons]
        exact ⟨⟨_, ht, hshapes.1⟩, ih hshapes.2⟩

/-! ### Sizes of types -/

theorem Registry.FromFiles.sized {reg : Registry} (h : reg.FromFiles) : reg.AllTypes Ty.Sized := by
  induction h with
  | empty => exact .empty
  | read before after ih =>
      have reach := (read_settled before.reading rfl (fun _ => Source.tokens_names) after).1
      exact reach.allTypes Ty.hereditary_sized (fun _ ht => ht.sized) ih

/-- A variable is found by its internal name once it has been entered. -/
theorem Registry.variableIn?_of_defineVariable {r r' : Registry} {id : ScopeId} {v : Variable}
    (h' : r'.WellFormed) (hid : r.Knows id) (after : r.defineVariable id v = (.ok (), r')) :
    r'.variableIn? id v.symbol.internal = some v := by
  refine h'.variableIn?_of_mem ?_ (by simp [Symbol.answersTo])
  obtain ⟨_, rfl⟩ := defineVariable_ok after
  rw [definitions_enter hid, if_pos rfl]
  exact List.mem_concat_self

/-- What is known of the results of all routines in a tree is known of the one around a part of it. -/
theorem Occurs.result {P : Ty → Prop} {site site' : Site} {n n' : Node} (ho : Occurs site n site' n')
    (h : Every (fun _ n => ∀ f, n.routine? = some f → P f.result) site n)
    (hsite : ∀ f ∈ site.routine, P f.result) : ∀ f ∈ site'.routine, P f.result := by
  induction ho with
  | here => exact hsite
  | @under _ _ _ _ child member _ ih =>
      refine ih (h.child member) ?_
      rcases Node.child_cases member with ⟨f, hf, hinside⟩ | ⟨_, hsame, _⟩
      · rw [hinside]
        rintro _ ⟨⟩
        exact h.here f hf
      · rw [hsame]
        exact hsite

namespace Reading

variable {rd : Reading} {reg : Registry} {source : Source} {site : Site} {n : Node}

theorem Settled.fits (h : rd.Settled reg source site n) : n.Fits := by
  unfold Node.Fits
  split
  · obtain ⟨n₀, reg₀, _, _, _, _, hf, hn⟩ := h.formed
    rw [Node.literal_of_mapCalls hn] at hf
    exact hf
  · trivial

theorem Settled.signs (h : rd.Settled reg source site n) {f : Routine} (hroutine : n.routine? = some f) :
    rd.Signs f := by
  obtain ⟨n₀, reg₀, _, _, _, _, hf, hn⟩ := h.formed
  obtain ⟨f₀, hf₀, hmap⟩ := Node.routine?_of_mapCalls hn hroutine
  obtain ⟨body, rfl, _⟩ := Routine.mapCalls_eq_ok hmap
  have signs : rd.Signs f₀ := by
    rcases Node.routine?_eq_some hf₀ with rfl | rfl
    · exact hf.1
    · exact hf
  exact ⟨signs.params, signs.result⟩

theorem Settled.brings (h : rd.Settled reg source site n) : n.Brings Ty.Sized := by
  unfold Node.Brings
  split
  · trivial
  · exact Signs.type Ty.hereditary_sized (fun _ ht => ht.sized) (h.signs rfl)
  · trivial

/-! ### Declarations -/

/-- What is known of a variable when it is entered is known at the end. -/
theorem Settled.variable {d : VarDecl} (h : rd.Settled reg source site (.stmt (.variable d))) :
    ∃ mark, d.MarkedBy reg rd.tokens mark ∧ ∀ value ∈ d.value,
      mark.kind = .colon ∧ d.type.Sized ∧ coerces reg site.scope d.type value = .ok true ∨
        mark.kind = .assign ∧ ∃ t, infer reg site.scope value = .ok t ∧ d.type.bare = t.bare := by
  obtain ⟨n₀, reg₀, wf₀, wf, hx, hk, hf, hn⟩ := h.formed
  obtain ⟨d₀, rfl, hd⟩ := Node.variable_of_mapCalls hn
  obtain ⟨value', rfl, hvalue⟩ := VarDecl.mapCalls_eq_ok hd
  obtain ⟨⟨hscope, _⟩, reg₁, type, name, mark, hready, htype, after, hbehind, htypes⟩ := hf
  have entered : reg₁.perform (.defineVariable site.scope _) = (.ok (), reg₀) := after
  have hx₁ := (Registry.extends_of_perform entered).trans hx
  let v : Variable := ⟨⟨d₀.name, d₀.internal, name.span⟩, d₀.type⟩
  refine ⟨mark, ⟨v, name, ?_, rfl, hbehind⟩, fun e' he' => ?_⟩
  · have found := Registry.variableIn?_of_defineVariable wf₀ hready.knows after
    exact hscope ▸ hx.variableIn?_eq_some found
  · obtain ⟨e, he, hmap⟩ := exists_mem_of_forall₂ hvalue (Option.mem_toList.mpr he')
    rw [Option.mem_toList.mp he] at htypes
    have hg := reg.retargets source
    have typed := htypes.takes_or_infers d₀.mutable (reg₁.declares site.scope)
    rw [← htype] at typed
    rcases typed with ⟨hmark, hsized, htakes⟩ | ⟨hmark, t, ht, hbare⟩
    · exact .inl ⟨hmark, hsized, coerces_later hx₁ hready.wellFormed wf hready.knows hg hmap htakes⟩
    · exact .inr ⟨hmark, t, infer_later hx₁ hready.wellFormed wf hready.knows hg hmap ht, hbare⟩

/-! ### Calls -/

theorem Settled.chooses {c : Call} (h : rd.Settled reg source site (.expr (.call c))) :
    reg.Chooses c c.target := by
  obtain ⟨n₀, reg₀, wf₀, wf, hx, hk, hf, hn⟩ := h.formed
  obtain ⟨c₀, rfl, hc⟩ := Node.call_of_mapCalls hn
  exact Aims.chooses hf wf₀ wf hx hk hc

section Keyed

variable (htoken : rd.token = Token.Names) (wellFormed : reg.WellFormed) (tidy : reg.Tidy Token.Names)
  (keyed : ∀ f, .function f ∈ reg.definitions Registry.global → f.Keyed) (sized : reg.AllTypes Ty.Sized)

include htoken wellFormed tidy keyed sized

theorem ranged_call {c : Call} (h : Every (rd.Settled reg source) site (.expr (.call c))) : c.Ranged reg := by
  cases h.here.chooses with
  | takes expects each =>
      refine ⟨_, expects, .inl fun x hx => ?_⟩
      have slot := sized.expects? Ty.hereditary_sized expects x.1 (List.of_mem_zip hx).1
      exact bounded_of_coerces slot (coercesEach_iff.mp each x hx)
  | @types name f callee target found =>
      refine ⟨f.params, target ▸ Registry.expects?_of_function? found, .inr ⟨name, callee, target, ?_⟩⟩
      intro hmain x hx
      obtain ⟨hparams, hshapes⟩ := h.here.shapes_eq htoken wellFormed tidy keyed callee hmain found
      obtain ⟨_, _, hinfer, _⟩ := h.here.call
      obtain ⟨u, hu, hshape⟩ := infer_of_mem_zip hshapes hinfer x hx
      obtain ⟨hp, ha⟩ := List.of_mem_zip hx
      have fits := (h.imp fun _ _ hn => hn.fits).child (List.mem_map_of_mem ha)
      exact boundedFirst_of_shape hu (lt_of_meetsFirst fits) (hparams x.1 hp) hshape

/-- The result of the routine around has to be known, since that is outside of the part. -/
theorem ranged_of_settled (h : Every (rd.Settled reg source) site n)
    (hresult : ∀ f ∈ site.routine, f.result.Sized) : n.Ranged reg rd.tokens site := by
  have fits : Every (fun _ n => n.Fits) site n := h.imp fun _ _ hn => hn.fits
  have checks := h.here.checks
  unfold Node.Ranged
  -- the cases are a declaration, a result, an assignment, a struct, a call, and what has no slot
  split
  · obtain ⟨mark, marked, typed⟩ := h.here.variable
    refine ⟨mark, marked, fun value hvalue => ?_⟩
    rcases typed value hvalue with ⟨hmark, hslot, htakes⟩ | ⟨hmark, t, ht, hbare⟩
    · exact .inl ⟨hmark, bounded_of_coerces hslot htakes⟩
    · have fits := fits.child (List.mem_map_of_mem (Option.mem_toList.mpr hvalue))
      exact .inr ⟨hmark, boundedFirst_of_bare ht (lt_of_meetsFirst fits) hbare⟩
  · rintro e rfl
    obtain ⟨f, hroutine, _, htakes⟩ := checks
    exact ⟨f, hroutine, bounded_of_coerces (hresult f hroutine) htakes⟩
  · obtain ⟨t, ht, htakes⟩ := checks
    have brings := (h.child List.mem_cons_self).imp fun _ _ hn => hn.brings
    exact ⟨t, ht, bounded_of_coerces (infer_hereditary Ty.hereditary_sized sized brings ht) htakes⟩
  · obtain ⟨⟨fields, hfields, _, hfills⟩, _⟩ := checks
    refine ⟨fields, hfields, fun e he => ?_⟩
    obtain ⟨field, hfield, htakes⟩ := hfills e he
    have slot := sized.fields? hfields field (List.mem_of_find?_eq_some hfield)
    exact ⟨field, hfield, bounded_of_coerces slot htakes⟩
  · exact ranged_call htoken wellFormed tidy keyed sized h
  · exact fits.here

end Keyed

end Reading

namespace Registry

/-- In an accepted program, the integers in a value are within the slots that they meet, wherever the value has
been checked against a slot: if they have no suffix, they are in the range, and if they have one, the slot is of
the type for that. Elsewhere it is known of the first elements, of which some may be too low. -/
theorem read_ranged {reg reg' : Registry} {source : Source} {p : Program} (h : reg.FromFiles)
    (hread : reg.read source = (.ok p, reg')) :
    ∃ tokens, source.tokens = .ok tokens ∧
      Every (fun site n => n.Ranged reg' tokens site) {} (.block p.body) := by
  obtain ⟨tokens, htokens, hread'⟩ := exists_tokens hread
  have settled := (readTokens_settled h.reading rfl (Source.tokens_names htokens) hread').2 p rfl
  have after := FromFiles.read h hread
  obtain ⟨wellFormed, tidy, keyed⟩ := after.invariant
  refine ⟨tokens, htokens, fun site n ho => ?_⟩
  have results := ho.result (settled.imp fun _ _ hn f hf => (hn.signs hf).result.sized) nofun
  exact Reading.ranged_of_settled rfl wellFormed tidy keyed after.sized (settled.part ho) results

/-- Integers in all places, and some that are not in the ranges of their slots: one with a suffix, one that is
negative and an element behind the first, in calls of functions that are known by the types of the arguments. -/
theorem read_ranged_misfits :
    let source : Source := ⟨0, "unit.st",
      "struct P \x7b x: i8; \x7d fn f(a: i32[]): i64 \x7b
        let p = P::\x7b x: -128 \x7d; p.x = 127; return 9223372036854775808L; \x7d
      fn g(x: u64): void \x7b \x7d fn main(): void \x7b
        let a: i64[] = [-1, 3L]; let b = [1, 3000000000];
        f([1, 3000000000]); g(-9223372036854775809); \x7d"⟩
    ∃ p reg tokens, Registry.empty.read source = (.ok p, reg) ∧
      p.body.calls.map (·.target) = [.function "f(i32[])", .function "g(u64)"] ∧
      source.tokens = .ok tokens ∧ Every (fun site n => n.Ranged reg tokens site) {} (.block p.body) := by
  intro source
  obtain ⟨p, reg, hread, hcalls⟩ := exists_of_read .empty source (by rfl) (fun p _ => p.body.calls.map (·.target))
    (x := [.function "f(i32[])", .function "g(u64)"]) (by decide +kernel)
  obtain ⟨tokens, htokens, hranged⟩ := read_ranged .empty hread
  exact ⟨p, reg, tokens, hread, hcalls, htokens, hranged⟩

end Registry
end OnePass
