import OnePass.Proofs.Grammar.Gives
import OnePass.Proofs.Registry.Operations

/-!
The invariant of the registry as a whole, over every run of its operations.
-/

namespace OnePass
namespace Registry

variable {r : Registry}

/-- Entering a definition either succeeds or leaves the registry as it was. -/
theorem enter_failed {ctx : Grammar.Context} {span : Span} {op : Operation} {d : Diagnostic} {r' : Registry}
    (h : (ctx.enter span (Registry.perform · op) : Grammar.Parse Unit).run.run r = (.error d, r')) : r' = r := by
  rw [Grammar.run_enter] at h
  rcases hop : r.perform op with ⟨fault | _, r₁⟩
  · rw [hop] at h
    exact (Prod.mk.inj h).2 ▸ perform_failed hop
  · rw [hop] at h
    cases h

/-- Whatever operations are performed on the empty registry, in scopes that are there and with or without
success, the registry is well-formed: a tree of scopes with the global one as its root, functions and
structs in the global scope alone, names apart within each scope and sort, and modules noted by their
paths. An operation that fails changes nothing. -/
theorem reachable_invariant (h : Reachable r) :
    r.WellFormed ∧
      (∀ id s, r.scope? id = some s →
        (s.parent? = none ↔ id = global) ∧
        (∀ p, s.parent? = some p → p < id ∧ r.ancestors id = id :: r.ancestors p) ∧
        (r.ancestors id).Pairwise (· > ·) ∧ (r.ancestors id).getLast? = some global) ∧
      ∀ (ctx : Grammar.Context) (span : Span) (op : Operation) (d : Diagnostic) (r' : Registry),
        (ctx.enter span (Registry.perform · op) : Grammar.Parse Unit).run.run r = (.error d, r') → r' = r := by
  have wf := h.wellFormed
  refine ⟨wf, ?_, fun _ _ _ _ _ => enter_failed⟩
  intro id s hs
  have hid : r.Knows id := knows_iff.mpr ⟨s, hs⟩
  obtain ⟨root, parent⟩ := wf.outwards hs
  exact ⟨root, parent, wf.ancestors_decreasing hid, wf.ancestors_getLast? hid⟩

/-- A variable of a module, another that is refused for one of its names, and a scope in the module. -/
theorem reachable_invariant_module :
    let x : Variable := ⟨⟨"x", "geo__x", .ofLength 0 1 0⟩, .bool⟩
    let y : Variable := ⟨⟨"geo__x", "y", .ofLength 2 1 0⟩, .bool⟩
    let r₁ := (Registry.empty.perform (.openModule 0 "geo")).2
    let r₂ := (r₁.perform (.defineVariable 1 x)).2
    let r₃ := (r₂.perform (.defineVariable 1 y)).2
    let r₄ := (r₃.perform (.openScope 1 .function)).2
    (r₂.perform (.defineVariable 1 y)).1.isOk = false ∧ r₄.scopes.length = 3 ∧ Reachable r₄ ∧
      r₄.WellFormed := by
  intro x y r₁ r₂ r₃ r₄
  have h₁ : Reachable r₁ := .perform .empty (by rintro _ ⟨⟩; decide)
  have h₂ : Reachable r₂ := .perform h₁ (by rintro _ ⟨⟩; decide)
  have h₃ : Reachable r₃ := .perform h₂ (by rintro _ ⟨⟩; decide)
  have h₄ : Reachable r₄ := .perform h₃ (by rintro _ ⟨⟩; decide)
  exact ⟨by decide, by decide, h₄, (reachable_invariant h₄).1⟩

end Registry
end OnePass
