import OnePass.Proofs.Grammar.Unit
import OnePass.Proofs.Registry.Targets

/-!
Names of accepted programs. Whatever a name in an accepted program stands for is in the registry at the
end: calls have targets, identifiers have bindings, struct values have structs. Identifiers and structs
are found where they are read, and calls there or, at the latest, when the unit has been read to its end;
what was found earlier is still found then, since a registry only grows.
-/

namespace OnePass

namespace Registry

variable {r r' : Registry} {id : ScopeId}

/-- Is there a function known by this name? -/
def HasFunction (r : Registry) (internal : String) : Prop :=
  ∃ f, .function f ∈ r.definitions global ∧ f.symbol.internal = internal

/-- Is there a struct known by this name? -/
def HasStruct (r : Registry) (internal : String) : Prop :=
  ∃ s, .struct s ∈ r.definitions global ∧ s.symbol.internal = internal

/-- Is there what a call calls: a function, or a variable that holds one? -/
def Offers (r : Registry) : Target → Prop
  | .function internal => r.HasFunction internal
  | .variable internal scope =>
    ∃ v params result flags,
      r.variableIn? scope internal = some v ∧ v.type = .function params result flags
  | .deferred => False

/-- Is there what an identifier stands for? -/
def Provides (r : Registry) : Binding → Prop
  | .variable internal scope => ∃ v, r.variableIn? scope internal = some v
  | .function internal => r.HasFunction internal

/-! ### Growth -/

theorem HasFunction.mono {internal : String} (h : r.HasFunction internal) (hx : r.Extends r') :
    r'.HasFunction internal :=
  let ⟨f, hf, hi⟩ := h
  ⟨f, (hx.definitions_prefix global).mem hf, hi⟩

theorem HasStruct.mono {internal : String} (h : r.HasStruct internal) (hx : r.Extends r') :
    r'.HasStruct internal :=
  let ⟨s, hs, hi⟩ := h
  ⟨s, (hx.definitions_prefix global).mem hs, hi⟩

theorem Provides.mono {b : Binding} (h : r.Provides b) (hx : r.Extends r') : r'.Provides b := by
  match b with
  | .variable _ _ =>
      obtain ⟨v, hv⟩ := h
      exact ⟨v, hx.variableIn?_eq_some hv⟩
  | .function _ => exact HasFunction.mono h hx

/-! ### What is found is there -/

theorem hasFunction_of_function? (h : r.WellFormed) (hid : r.Knows id) {name : String} {f : Overload}
    (hf : r.function? id name = some f) : r.HasFunction name :=
  ⟨f, (mem_functions_iff h hid).mp (List.mem_of_find?_eq_some hf), by
    simpa using List.find?_some (p := fun f : Overload => f.symbol.internal == name) hf⟩

theorem hasFunction_of_named (h : r.WellFormed) (hid : r.Knows id) {name : String} {f : Overload}
    (hf : f ∈ r.functionsNamed id name) : r.HasFunction f.symbol.internal :=
  ⟨f, (mem_functions_iff h hid).mp (List.mem_filter.mp hf).1, rfl⟩

theorem hasStruct_of_structName? (h : r.WellFormed) (hid : r.Knows id) {name internal : String}
    (hs : r.structName? id none name = some internal) : r.HasStruct internal := by
  have found := List.find?_some (p := fun c => none == some c || (r.struct? id c).isSome) hs
  obtain ⟨s, hs⟩ := Option.isSome_iff_exists.mp (by simpa using found)
  exact ⟨s, (mem_structs_iff h hid).mp (List.mem_of_find?_eq_some hs), by
    simpa using List.find?_some (p := fun s : Struct => s.symbol.internal == internal) hs⟩

theorem variableIn?_of_pathVariable? (h : r.WellFormed) {segments : List String} {a : ScopeId}
    {v : Variable} (hv : r.pathVariable? id segments = some (a, v)) :
    r.variableIn? a v.symbol.internal = some v := by
  unfold pathVariable? at hv
  split at hv
  · cases hv
  · exact variableIn?_of_resolveVariable? h hv
  · obtain ⟨m, _, hm⟩ := List.exists_of_findSome?_eq_some hv
    simp only [moduleVariable?, Option.bind_eq_bind, Option.bind_eq_some_iff, Option.pure_def,
      Option.some.injEq, Prod.mk.injEq] at hm
    obtain ⟨_, _, w, hw, rfl, rfl⟩ := hm
    exact h.variableIn?_of_mem (mem_of_variableIn? hw).1 (by simp [Symbol.answersTo])

theorem provides_of_bindingOf? (h : r.WellFormed) (hid : r.Knows id) {segments : List String}
    {b : Binding} (hb : r.bindingOf? id segments = some b) : r.Provides b := by
  unfold bindingOf? at hb
  split at hb
  · rename_i a v hv
    obtain rfl := Option.some.inj hb
    exact ⟨v, variableIn?_of_pathVariable? h hv⟩
  · obtain ⟨f, hf, rfl⟩ := Option.map_eq_some_iff.mp hb
    obtain ⟨name, _, hn⟩ := List.exists_of_findSome?_eq_some hf
    unfold onlyFunction? at hn
    split at hn
    · rename_i g hg
      obtain rfl := Option.some.inj hn
      exact hasFunction_of_named h hid (hg ▸ List.mem_singleton_self g)
    · cases hn

/-- Whatever a call has been given a target for, the target is there. -/
theorem Chooses.offers {c : Call} {t : Target} (hc : r.Chooses c t) (h : r.WellFormed)
    (hid : r.Knows c.scope) : r.Offers t := by
  cases hc with
  | types _ target found =>
      subst target
      exact hasFunction_of_function? h hid found
  | takes expects =>
      cases t with
      | function =>
          obtain ⟨f, hf, _⟩ := Option.map_eq_some_iff.mp expects
          exact hasFunction_of_function? h hid hf
      | «variable» =>
          obtain ⟨v, hv, hparams⟩ := Option.bind_eq_some_iff.mp expects
          obtain ⟨params, result, flags, htype⟩ := Ty.function_of_params? hparams
          exact ⟨v, params, result, flags, hv, htype⟩
      | deferred => cases expects

end Registry

/-- The names in a part of a tree, its own parts aside, stand for something in the registry. -/
def Node.Resolved (reg : Registry) : Node → Prop
  | .expr (.call c) => reg.Offers c.target
  | .expr (.identifier id) | .expr (.member id ..) => reg.Provides id.binding
  | .expr (.construct _ internal ..) => reg.HasStruct internal
  | _ => True

namespace Reading

variable {rd : Reading} {reg : Registry} {source : Source} {site : Site} {n : Node}

/-- A call that was aimed and then settled has a target that was chosen for it. -/
theorem Aims.chooses {reg₀ : Registry} {c c' : Call} (ha : rd.Aims reg₀ site.scope c)
    (wf₀ : reg₀.WellFormed) (wf : reg.WellFormed) (hx : reg₀.Extends reg) (hk : reg₀.Knows site.scope)
    (hc : c.mapCalls (reg.settleCall source) = .ok c') : reg.Chooses c' c'.target := by
  obtain ⟨found, hfound, htarget⟩ := ha.target
  obtain ⟨args, hargs, hc⟩ := Call.exists_args_of_mapCalls hc
  obtain ⟨target, rfl, ⟨hne, rfl⟩ | ⟨hd, ht⟩⟩ := Registry.settleCall_eq_ok hc
  · cases found with
    | none => exact absurd htarget hne
    | some t =>
        have chosen := Registry.chooses_of_target? wf₀ (ha.scope ▸ hk) hfound
        exact htarget ▸ chosen.later hx wf₀ wf (ha.scope ▸ hk) (reg.retargets source) hargs
  · exact (Registry.chooses_of_target? wf (hx.knows (ha.scope ▸ hk)) ht).retarget

theorem Settled.resolved (h : rd.Settled reg source site n) : n.Resolved reg := by
  obtain ⟨n₀, reg₀, wf₀, wf, hx, hk, hf, hn⟩ := h.formed
  cases n with
  | block | stmt => trivial
  | expr =>
      obtain ⟨e, rfl, he⟩ := Node.expr_of_mapCalls hn
      cases Expr.becomes he with
      | identifier =>
          obtain ⟨_, _, _, hb⟩ := hf
          exact (Registry.provides_of_bindingOf? wf₀ hk hb).mono hx
      | member =>
          obtain ⟨⟨_, _, _, hb⟩, _⟩ := hf
          exact (Registry.provides_of_bindingOf? wf₀ hk hb).mono hx
      | call hc =>
          have chosen := Aims.chooses hf wf₀ wf hx hk hc
          obtain ⟨args, target, rfl, _⟩ := Call.mapCalls_eq_ok (reg.retargets source) hc
          exact chosen.offers wf (hx.knows (hf.scope ▸ hk))
      | construct =>
          obtain ⟨⟨_, _, _, hs⟩, _⟩ := hf
          exact (Registry.hasStruct_of_structName? wf₀ hk hs).mono hx
      | literal | «variadic» | index | binary | assign | unary | array | lambda => trivial

end Reading

namespace Registry

/-- In an accepted program every call has a target, and every call, identifier and struct value stands for
something in the registry at the end, wherever in the program it is. -/
theorem read_resolves {reg reg' : Registry} {source : Source} {p : Program} (h : reg.WellFormed)
    (hread : reg.read source = (.ok p, reg')) :
    Every (fun _ n => n.Resolved reg') {} (.block p.body) := by
  have settled := (read_settled (.ofWellFormed h) rfl (fun _ _ _ _ => trivial) hread).2 p rfl
  exact settled.imp fun _ _ hn => hn.resolved

/-- Calls of functions that are declared further down, one in a function without a name, and of a variable
that holds it. -/
theorem read_resolves_forward :
    let source : Source := ⟨0, "unit.st",
      "struct P \x7b x: i32; \x7d fn main(): i32 \x7b
        let p = P::\x7b x: 1 \x7d;
        let f = (n: i32): void -> \x7b later(n); \x7d;
        f(p.x); later(2); return [p.x, 3][0]; \x7d
      fn later(n: i32): void \x7b \x7d"⟩
    ∃ p reg, Registry.empty.read source = (.ok p, reg) ∧ p.body.calls.length = 3 ∧
      Every (fun _ n => n.Resolved reg) {} (.block p.body) := by
  intro source
  obtain ⟨p, reg, hread, hcalls⟩ :=
    exists_of_read .empty source (by rfl) (fun p _ => p.body.calls.length) (x := 3) (by decide +kernel)
  exact ⟨p, reg, hread, hcalls, read_resolves .empty hread⟩

end Registry
end OnePass
