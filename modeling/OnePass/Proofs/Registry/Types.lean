import OnePass.Proofs.Registry.Operations
import OnePass.Proofs.Registry.Stability
import OnePass.Proofs.Ty.Written

/-!
Properties of all types in a registry. What is looked up has types with such a property, and an operation
keeps it if what it enters has it.
-/

namespace OnePass

/-- The types that a definition is made of have a property. -/
def Definition.AllTypes (P : Ty → Prop) : Definition → Prop
  | .variable v => P v.type
  | .function f => (∀ p ∈ f.params, P p) ∧ P f.result
  | .struct ⟨_, .fields fields⟩ => ∀ f ∈ fields, P f.type
  | .struct ⟨_, .alias _⟩ | .marker .. => True

namespace Registry

variable {P : Ty → Prop} {r r' : Registry} {id : ScopeId}

def AllTypes (P : Ty → Prop) (r : Registry) : Prop := ∀ id, ∀ d ∈ r.definitions id, d.AllTypes P

namespace AllTypes

theorem empty : Registry.empty.AllTypes P := by
  intro id d hd
  cases id <;> cases hd

/-! ### Lookup -/

theorem declared (h : r.AllTypes P) {d : Definition} (hd : d ∈ r.declared id) : d.AllTypes P := by
  obtain ⟨a, _, ha⟩ := List.mem_flatMap.mp hd
  exact h a d ha

theorem function? (h : r.AllTypes P) {name : String} {f : Overload} (hf : r.function? id name = some f) :
    (∀ p ∈ f.params, P p) ∧ P f.result := by
  obtain ⟨d, hd, he⟩ := List.mem_filterMap.mp (List.mem_of_find?_eq_some hf)
  cases d <;> simp only [Definition.asFunction?, Option.some.injEq, reduceCtorEq] at he
  exact he ▸ h.declared hd

theorem variableIn? (h : r.AllTypes P) {name : String} {v : Variable} (hv : r.variableIn? id name = some v) :
    P v.type :=
  h id _ (mem_of_variableIn? hv).1

theorem fields? (h : r.AllTypes P) {name : String} {fields : List Field}
    (hf : r.fields? id name = .ok (some fields)) : ∀ f ∈ fields, P f.type := by
  obtain ⟨⟨symbol, layout⟩, hs, rfl⟩ := exists_of_fields? hf
  obtain ⟨d, hd, he⟩ := List.mem_filterMap.mp hs
  cases d <;> simp only [Definition.asStruct?, Option.some.injEq, reduceCtorEq] at he
  have types := h.declared hd
  rw [he] at types
  exact types

/-! ### Operations -/

/-- An operation enters at most one definition. -/
theorem perform {op : Operation} (h : r.AllTypes P) (hop : ∀ id d, op.defines? = some (id, d) → d.AllTypes P)
    (after : r.perform op = (.ok (), r')) : r'.AllTypes P := by
  intro id d hd
  rcases mem_definitions_of_perform after hd with hd | hd
  · exact h id d hd
  · exact hop id d hd

end AllTypes

end Registry
end OnePass
