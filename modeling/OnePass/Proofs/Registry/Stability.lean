import OnePass.Proofs.Registry.WellFormed
import OnePass.Proofs.Success

/-!
What is found in a registry is found in every larger one. A variable of a given scope, a function or a
struct by its internal name, and the fields behind a chain of aliases all stay what they were. The
innermost variable of a name does not, since a later one may hide it: what has to last is looked up once
and kept with its scope.
-/

namespace OnePass
namespace Registry

variable {r r' : Registry} {id : ScopeId}

/-! ### Functions and structs are global -/

/-- From wherever functions or structs are looked for, those of the global scope are found. -/
theorem WellFormed.filterMap_declared {β : Type} (h : r.WellFormed) (hid : r.Knows id)
    (f : Definition → Option β) (hf : ∀ a d, d.Placed a → f d ≠ none → a = global) :
    (r.declared id).filterMap f = (r.definitions global).filterMap f := by
  induction id, hid using h.inwards with
  | root =>
      obtain ⟨s, hs, hk, _⟩ := h.root
      have root : r.declares global = true := by
        simp only [declares, kind?, hs, Option.map_some, hk]
        rfl
      simp only [declared, h.ancestors_global, List.filter_cons, root, if_true, List.filter_nil,
        List.flatMap_cons, List.flatMap_nil, List.append_nil]
  | inner id _ parent _ hne _ he ih =>
      have none_here : (r.definitions id).filterMap f = [] := by
        rw [List.filterMap_eq_nil_iff]
        intro d hd
        by_contra hsome
        exact hne (hf id d (h.placed id d hd) hsome)
      rw [← ih, declared, declared, he, List.filter_cons]
      split
      · rw [List.flatMap_cons, List.filterMap_append, none_here, List.nil_append]
      · rfl

theorem WellFormed.functions_eq (h : r.WellFormed) (hid : r.Knows id) :
    r.functions id = (r.definitions global).filterMap (·.asFunction?) := by
  apply h.filterMap_declared hid
  intro a d placed hd
  cases d <;> first | exact placed | exact absurd rfl hd

theorem WellFormed.structs_eq (h : r.WellFormed) (hid : r.Knows id) :
    r.structs id = (r.definitions global).filterMap (·.asStruct?) := by
  apply h.filterMap_declared hid
  intro a d placed hd
  cases d <;> first | exact placed | exact absurd rfl hd

theorem mem_functions_iff (h : r.WellFormed) (hid : r.Knows id) {f : Overload} :
    f ∈ r.functions id ↔ .function f ∈ r.definitions global := by
  rw [h.functions_eq hid, List.mem_filterMap]
  constructor
  · rintro ⟨d, hd, hf⟩
    cases d <;> simp only [Definition.asFunction?, Option.some.injEq, reduceCtorEq] at hf
    exact hf ▸ hd
  · exact fun hf => ⟨_, hf, rfl⟩

theorem mem_structs_iff (h : r.WellFormed) (hid : r.Knows id) {s : Struct} :
    s ∈ r.structs id ↔ .struct s ∈ r.definitions global := by
  rw [h.structs_eq hid, List.mem_filterMap]
  constructor
  · rintro ⟨d, hd, hs⟩
    cases d <;> simp only [Definition.asStruct?, Option.some.injEq, reduceCtorEq] at hs
    exact hs ▸ hd
  · exact fun hs => ⟨_, hs, rfl⟩

/-- At the end of a chain of aliases is a struct with fields of its own. -/
theorem exists_of_followAliases {name : String} {n : Nat} {s : Struct} {fields : List Field}
    (hs : s ∈ r.structs id) (hf : r.followAliases id name n s = .ok fields) :
    ∃ t ∈ r.structs id, t.layout = .fields fields := by
  induction n generalizing s with
  | zero => cases hf
  | succ n ih =>
      unfold followAliases at hf
      split at hf
      · rename_i hlayout
        exact ⟨s, hs, Except.ok.inj hf ▸ hlayout⟩
      · split at hf
        · rename_i t ht
          exact ih (List.mem_of_find?_eq_some ht) hf
        · cases hf

theorem exists_of_fields? {name : String} {fields : List Field}
    (hf : r.fields? id name = .ok (some fields)) : ∃ t ∈ r.structs id, t.layout = .fields fields := by
  unfold fields? at hf
  split at hf
  · rename_i s hs
    obtain ⟨found, hfound, he⟩ := map_eq_ok.mp hf
    obtain rfl := Option.some.inj he
    exact exists_of_followAliases (List.mem_of_find?_eq_some hs) hfound
  · cases hf

/-! ### Fields depend on structs only -/

theorem followAliases_congr {id' : ScopeId} (heq : r'.structs id' = r.structs id) (query : String) (n : Nat)
    (s : Struct) : r'.followAliases id' query n s = r.followAliases id query n s := by
  induction n generalizing s with
  | zero => rfl
  | succ n ih => simp only [followAliases, struct?, heq, ih]

theorem fields?_congr {id' : ScopeId} (heq : r'.structs id' = r.structs id) (name : String) :
    r'.fields? id' name = r.fields? id name := by
  simp only [fields?, struct?, heq, followAliases_congr heq]

/-! ### Variables of a scope -/

def variablesIn (r : Registry) (id : ScopeId) : List Variable :=
  (r.definitions id).filterMap (·.asVariable?)

theorem variableIn?_eq (r : Registry) (id : ScopeId) (name : String) :
    r.variableIn? id name =
      ((r.definitions id).filterMap (·.asVariable?)).find? (·.symbol.answersTo name) := by
  cases hs : r.scope? id <;> simp [variableIn?, definitions, Scope.findVariable?, hs]

theorem mem_of_variableIn? {name : String} {v : Variable} (hv : r.variableIn? id name = some v) :
    .variable v ∈ r.definitions id ∧ v.symbol.answersTo name := by
  rw [variableIn?_eq] at hv
  have answers := List.find?_some (p := fun v : Variable => v.symbol.answersTo name) hv
  obtain ⟨d, hd, hdv⟩ := List.mem_filterMap.mp (List.mem_of_find?_eq_some hv)
  cases d <;> simp only [Definition.asVariable?, Option.some.injEq, reduceCtorEq] at hdv
  exact ⟨hdv ▸ hd, answers⟩

/-- What has a property is found by it, if nothing else has it. -/
theorem find?_of_mem {α : Type} {p : α → Bool} {a : α} {as : List α}
    (apart : as.Pairwise fun a b => ¬(p a = true ∧ p b = true)) (ha : a ∈ as) (hp : p a = true) :
    as.find? p = some a := by
  induction as with
  | nil => cases ha
  | cons b as ih =>
      rw [List.pairwise_cons] at apart
      rcases List.mem_cons.mp ha with rfl | ha
      · simp only [List.find?_cons, hp]
      · have hb : ¬p b = true := fun hb => apart.1 a ha ⟨hb, hp⟩
        simp only [List.find?_cons, hb]
        exact ih apart.2 ha

/-- A variable is found by either of its names, since no other of the scope answers to them. -/
theorem WellFormed.variableIn?_of_mem (h : r.WellFormed) {v : Variable} {name : String}
    (hv : .variable v ∈ r.definitions id) (hn : v.symbol.answersTo name) :
    r.variableIn? id name = some v := by
  have apart : ((r.definitions id).filterMap (·.asVariable?)).Pairwise
      fun a b => ∀ name, ¬(a.symbol.answersTo name ∧ b.symbol.answersTo name) := by
    rw [List.pairwise_filterMap]
    refine (h.apart id).imp ?_
    intro a b hab v hv w hw
    cases a <;> cases b <;>
      simp only [Definition.asVariable?, Option.some.injEq, reduceCtorEq] at hv hw
    exact hv ▸ hw ▸ hab
  have hmem : v ∈ (r.definitions id).filterMap (·.asVariable?) :=
    List.mem_filterMap.mpr ⟨_, hv, rfl⟩
  rw [variableIn?_eq]
  exact find?_of_mem (apart.imp fun hab => hab name) hmem hn

/-- No two functions are known by one name. -/
theorem WellFormed.functions_apart (h : r.WellFormed) (hid : r.Knows id) (internal : String) :
    (r.functions id).Pairwise fun f g =>
      ¬((f.symbol.internal == internal) = true ∧ (g.symbol.internal == internal) = true) := by
  rw [h.functions_eq hid, List.pairwise_filterMap]
  refine (h.apart global).imp ?_
  intro a b hab f hf g hg
  cases a <;> cases b <;>
    simp only [Definition.asFunction?, Option.some.injEq, reduceCtorEq] at hf hg
  subst hf hg
  simp only [beq_iff_eq]
  exact fun both => hab (both.1.trans both.2.symm)

/-- A function is found by its internal name, since no other has it. -/
theorem WellFormed.function?_of_mem (h : r.WellFormed) (hid : r.Knows id) {f : Overload}
    (hf : f ∈ r.functions id) : r.function? id f.symbol.internal = some f :=
  find?_of_mem (h.functions_apart hid f.symbol.internal) hf (beq_self_eq_true f.symbol.internal)

/-- What is resolved to is a variable of the scope that it is resolved in. -/
theorem mem_of_resolveVariable? {name : String} {a : ScopeId} {v : Variable}
    (hv : r.resolveVariable? id name = some (a, v)) :
    a ∈ r.ancestors id ∧ .variable v ∈ r.definitions a := by
  obtain ⟨b, hb, he⟩ := List.exists_of_findSome?_eq_some hv
  obtain ⟨w, hw, heq⟩ := Option.map_eq_some_iff.mp he
  obtain ⟨rfl, rfl⟩ := Prod.mk.inj heq
  exact ⟨hb, (mem_of_variableIn? hw).1⟩

theorem variableIn?_of_resolveVariable? (h : r.WellFormed) {name : String} {a : ScopeId} {v : Variable}
    (hv : r.resolveVariable? id name = some (a, v)) : r.variableIn? a v.symbol.internal = some v :=
  h.variableIn?_of_mem (mem_of_resolveVariable? hv).2 (by simp [Symbol.answersTo])

/-! ### Growth keeps what was found -/

namespace Extends

theorem variableIn?_eq_some (hx : r.Extends r') {name : String} {v : Variable}
    (hv : r.variableIn? id name = some v) : r'.variableIn? id name = some v := by
  rw [Registry.variableIn?_eq] at hv ⊢
  exact ((hx.definitions_prefix id).filterMap _).find?_eq_some hv

theorem functions_prefix (hx : r.Extends r') (h : r.WellFormed) (h' : r'.WellFormed)
    (hid : r.Knows id) : r.functions id <+: r'.functions id := by
  rw [h.functions_eq hid, h'.functions_eq (hx.knows hid)]
  exact (hx.definitions_prefix global).filterMap _

theorem structs_prefix (hx : r.Extends r') (h : r.WellFormed) (h' : r'.WellFormed)
    (hid : r.Knows id) : r.structs id <+: r'.structs id := by
  rw [h.structs_eq hid, h'.structs_eq (hx.knows hid)]
  exact (hx.definitions_prefix global).filterMap _

theorem function?_eq_some (hx : r.Extends r') (h : r.WellFormed) (h' : r'.WellFormed)
    (hid : r.Knows id) {name : String} {f : Overload} (hf : r.function? id name = some f) :
    r'.function? id name = some f :=
  (hx.functions_prefix h h' hid).find?_eq_some hf

theorem struct?_eq_some (hx : r.Extends r') (h : r.WellFormed) (h' : r'.WellFormed)
    (hid : r.Knows id) {name : String} {s : Struct} (hs : r.struct? id name = some s) :
    r'.struct? id name = some s :=
  (hx.structs_prefix h h' hid).find?_eq_some hs

/-- A chain of aliases that ends is not made longer, and there is more room for it. -/
theorem followAliases_eq_ok (hx : r.Extends r') (h : r.WellFormed) (h' : r'.WellFormed)
    (hid : r.Knows id) {name : String} {n m : Nat} {s : Struct} {fields : List Field} (hnm : n ≤ m)
    (hf : r.followAliases id name n s = .ok fields) :
    r'.followAliases id name m s = .ok fields := by
  induction n generalizing m s with
  | zero => cases hf
  | succ n ih =>
      obtain ⟨m, rfl⟩ : ∃ k, m = k + 1 := ⟨m - 1, by omega⟩
      simp only [followAliases] at hf ⊢
      split at hf
      · exact hf
      · rename_i target _
        cases ht : r.struct? id target.internal with
        | none => rw [ht] at hf; cases hf
        | some t =>
            rw [ht] at hf
            rw [hx.struct?_eq_some h h' hid ht]
            exact ih (by omega) hf

theorem fields?_eq_some (hx : r.Extends r') (h : r.WellFormed) (h' : r'.WellFormed)
    (hid : r.Knows id) {name : String} {fields : List Field}
    (hf : r.fields? id name = .ok (some fields)) : r'.fields? id name = .ok (some fields) := by
  simp only [fields?] at hf ⊢
  cases hs : r.struct? id name with
  | none => rw [hs] at hf; cases hf
  | some s =>
      simp only [hs] at hf
      simp only [hx.struct?_eq_some h h' hid hs]
      cases hc : r.followAliases id name (r.structs id).length s with
      | error d => rw [hc] at hf; cases hf
      | ok fs =>
          rw [hc] at hf
          rw [hx.followAliases_eq_ok h h' hid (hx.structs_prefix h h' hid).length_le hc]
          exact hf

end Extends

end Registry
end OnePass
