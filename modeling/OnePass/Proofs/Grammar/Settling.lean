import OnePass.Proofs.Grammar.Unit
import OnePass.Proofs.Tree.Postorder
import OnePass.Proofs.Tree.Walk

/-!
Settling the calls that were left open. A unit is settled by a walk over its calls, which ends with the target that
is found for each, or fails with the first that there is none for. What it fails with points at that call.
-/

namespace OnePass
namespace Registry

variable {reg : Registry} {source : Source} {b : Block}

/-- Where a call goes when all of the unit is known: to the target that it has or is now found for it, if there
is one. -/
def finalTarget (reg : Registry) (c : Call) : Target :=
  if c.target = .deferred then
    match reg.target? c with
    | .ok (some target) => target
    | _ => .deferred
  else c.target

/-- The call was left open, and no target is found for it when those in its arguments have theirs. -/
def Misses (reg : Registry) (c : Call) : Prop :=
  c.target = .deferred ∧ ∀ target, reg.target? (c.prepared reg.finalTarget) ≠ .ok (some target)

theorem eq_finalTarget {c c' : Call} (h : reg.settleCall source c = .ok c') :
    c' = { c with target := reg.finalTarget c } := by
  obtain ⟨target, rfl, ⟨hne, rfl⟩ | ⟨hd, ht⟩⟩ := settleCall_eq_ok h
  · rw [finalTarget, if_neg hne]
  · rw [finalTarget, if_pos hd, ht]

theorem settleCall_walks (reg : Registry) (source : Source) :
    Walks (reg.settleCall source) (fun c => (fun _ => ()) <$> reg.settleCall source (c.prepared reg.finalTarget))
      reg.finalTarget := by
  intro c
  dsimp only
  cases h : reg.settleCall source (c.prepared reg.finalTarget) with
  | error d => rfl
  | ok c' =>
      rw [eq_finalTarget h]
      rfl

theorem settle_eq (reg : Registry) (source : Source) (b : Block) :
    Grammar.settle reg source b = do
      forM b.calls fun c => (fun _ => ()) <$> reg.settleCall source (c.prepared reg.finalTarget)
      return b.retarget reg.finalTarget :=
  b.mapCalls_walk (reg.settleCall_walks source)

theorem misses_of_error {c : Call} {d : Diagnostic}
    (h : reg.settleCall source (c.prepared reg.finalTarget) = .error d) : reg.Misses c := by
  unfold settleCall at h
  split at h
  · cases h
  · rename_i hdeferred
    refine ⟨by simpa [Call.prepared] using hdeferred, fun target ht => ?_⟩
    rw [ht] at h
    cases h

theorem pointsInto_of_error {c : Call} {d : Diagnostic}
    (h : reg.settleCall source (c.prepared reg.finalTarget) = .error d) : d.PointsInto source (· = c.span) := by
  have place : (c.prepared reg.finalTarget).span = c.span := rfl
  exact settleCall_fails (W := (· = c.span)) place d h

theorem Misses.error {c : Call} (h : reg.Misses c) (source : Source) :
    ∃ d, reg.settleCall source (c.prepared reg.finalTarget) = .error d := by
  cases hc : reg.settleCall source (c.prepared reg.finalTarget) with
  | error d => exact ⟨d, rfl⟩
  | ok c' =>
      obtain ⟨target, _, ⟨hne, _⟩ | ⟨_, ht⟩⟩ := settleCall_eq_ok hc
      · exact absurd h.1 hne
      · exact absurd ht (h.2 target)

theorem not_misses {c : Call} (h : (fun _ => ()) <$> reg.settleCall source (c.prepared reg.finalTarget) = .ok ()) :
    ¬ reg.Misses c := by
  intro misses
  obtain ⟨d, hd⟩ := misses.error source
  rw [hd] at h
  cases h

theorem settle_eq_error {d : Diagnostic} (h : Grammar.settle reg source b = .error d) :
    ∃ front c rest, b.calls = front ++ c :: rest ∧ (∀ c' ∈ front, ¬ reg.Misses c') ∧
      reg.settleCall source (c.prepared reg.finalTarget) = .error d := by
  rw [settle_eq] at h
  obtain ⟨front, c, rest, hcalls, hfront, hc⟩ := forM_eq_error (map_eq_error h)
  exact ⟨front, c, rest, hcalls, fun c' hc' => not_misses (hfront c' hc'), map_eq_error hc⟩

theorem settle_eq_ok {b' : Block} (h : Grammar.settle reg source b = .ok b') :
    (∀ c ∈ b.calls, ¬ reg.Misses c) ∧ b' = b.retarget reg.finalTarget := by
  rw [settle_eq] at h
  obtain ⟨_, hcalls, hb⟩ := bind_eq_ok.mp h
  exact ⟨fun c hc => not_misses (forM_eq_ok hcalls c hc), (Except.ok.inj hb).symm⟩

/-- A unit that cannot be settled fails at one of its calls. -/
theorem settle_fails {W : Span → Prop} (hb : (Part.block b).Lies W) :
    Fails (Grammar.settle reg source b) (·.PointsInto source W) := by
  intro d hd
  obtain ⟨front, c, rest, hcalls, _, hc⟩ := settle_eq_error hd
  have hspan : W c.span := hb.calls c (by simp [Part.calls, hcalls])
  have place : W (c.prepared reg.finalTarget).span := hspan
  exact settleCall_fails place d hc

end Registry
end OnePass
