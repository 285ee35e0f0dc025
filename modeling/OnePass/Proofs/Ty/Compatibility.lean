import OnePass.Proofs.Ty.Acceptance

/-!
Agreement as a relation. It is reflexive and symmetric, and it passes through arrays and functions part by part.
It is not transitive, since `nil` agrees with whatever is optional, at any depth of a type. Where `nil` does not
occur this cannot come in: agreement is then equality of types without their marks, widths and lengths.
-/

namespace OnePass
namespace Ty

/-! ### Part by part -/

theorem agreesAll_iff {ts us : List Ty} :
    agreesAll ts us = true ↔ List.Forall₂ (fun t u => t.agrees u = true) ts us := by
  induction ts generalizing us with
  | nil => cases us <;> simp [agreesAll]
  | cons t ts ih => cases us <;> simp [agreesAll, ih]

theorem agrees_function {t u : Ty} {ts us : List Ty} {f f' : Flags} :
    (function ts t f).agrees (function us u f') = true ↔
      List.Forall₂ (fun t u => t.agrees u = true) ts us ∧ t.agrees u = true := by
  rw [agrees, nilAgrees_eq_false rfl rfl, Bool.or_false, Bool.and_eq_true, agreesAll_iff]

/-! ### Symmetry -/

theorem nilAgrees_comm (t u : Ty) : t.nilAgrees u = u.nilAgrees t := Bool.or_comm _ _

mutual

theorem agrees_comm (t u : Ty) : t.agrees u = u.agrees t := by
  unfold agrees
  rw [nilAgrees_comm]
  cases t <;> cases u
  case primitive.primitive | named.named => exact congrArg (· || _) Bool.beq_comm
  case array.array e _ _ e' _ _ => exact congrArg (· || _) (agrees_comm e e')
  case function.function ps r _ ps' r' _ =>
    exact congrArg (· || _) (congrArg₂ (· && ·) (agreesAll_comm ps ps') (agrees_comm r r'))
  -- types of different forms agree through `nil` alone
  all_goals rfl

theorem agreesAll_comm (ts us : List Ty) : agreesAll ts us = agreesAll us ts := by
  match ts, us with
  | [], [] | [], _ :: _ | _ :: _, [] => rfl
  | t :: ts, u :: us => rw [agreesAll, agreesAll, agrees_comm t u, agreesAll_comm ts us]

end

/-! ### Nil -/

theorem isNil_eq_true {t : Ty} (h : t.isNil = true) : ∃ w f, t = primitive .nil w f := by
  cases t with
  | primitive k w f =>
      obtain rfl : k = .nil := by simpa [isNil, isKind, kind?] using h
      exact ⟨w, f, rfl⟩
  | named | array | function => cases h

/-- Whatever marks `nil` itself has, it agrees with `nil` and with what may be `nil`. -/
theorem agrees_of_isNil {t u : Ty} (h : t.isNil = true) :
    t.agrees u = true ↔ u.isNil = true ∨ u.isOptional = true := by
  obtain ⟨w, f, rfl⟩ := isNil_eq_true h
  have exception : nilAgrees (primitive .nil w f) u = (u.isOptional || u.isNil && f.optional) := by
    rw [nilAgrees, h, Bool.true_and]
    rfl
  unfold agrees
  rw [exception]
  cases u with
  | primitive k w' f' =>
      have same : (Primitive.nil == k) = (primitive k w' f').isNil := by
        simp [isNil, isKind, kind?, eq_comm]
      simp only [same, Bool.or_eq_true, Bool.and_eq_true]
      tauto
  | named | array | function => simp [isNil, isKind, kind?]

/-! ### Away from nil -/

theorem agrees_trans {t u v : Ty} (ht : t.Avoids .nil) (hu : u.Avoids .nil) (hv : v.Avoids .nil)
    (h : t.agrees u = true) (h' : u.agrees v = true) : t.agrees v = true := by
  rw [agrees_iff_bare ht hu] at h
  rw [agrees_iff_bare hu hv] at h'
  exact (agrees_iff_bare ht hv).mpr (h.trans h')

/-- Agreement is a congruence away from `nil`. It is reflexive and symmetric, and arrays and functions agree as their
parts do. Where `nil` does not occur, it is equality once marks, stored widths and array lengths are taken off at every
level, and so it is transitive. `nil` agrees with `nil` and with what is optional, and with nothing else. -/
theorem agrees_congruence (t u : Ty) :
    t.agrees t = true ∧ (t.agrees u = true ↔ u.agrees t = true) ∧
      (∀ l l' f f', (array t l f).agrees (array u l' f') = true ↔ t.agrees u = true) ∧
      (∀ ts us f f', (function ts t f).agrees (function us u f') = true ↔
        List.Forall₂ (fun p q => p.agrees q = true) ts us ∧ t.agrees u = true) ∧
      (t.Avoids .nil → u.Avoids .nil → (t.agrees u = true ↔ t.bare = u.bare)) ∧
      (∀ v : Ty, t.Avoids .nil → u.Avoids .nil → v.Avoids .nil → t.agrees u = true → u.agrees v = true →
        t.agrees v = true) ∧
      (t.isNil = true → (t.agrees u = true ↔ u.isNil = true ∨ u.isOptional = true)) := by
  refine ⟨agrees_refl t, by rw [agrees_comm], fun l l' f f' => by rw [agrees_array], fun ts us f f' => ?_, ?_, ?_, ?_⟩
  · exact agrees_function
  · exact agrees_iff_bare
  · exact fun v => agrees_trans
  · exact agrees_of_isNil

/-- Functions that differ in marks and lengths only; `nil` goes where a number may be missing, but not where there is
a function. -/
theorem agrees_congruence_marks :
    let number := ofPrimitive .i32
    let maybe := number.withFlags { optional := true }
    let t := function [array maybe 3 .plain] (named "P" .plain) .plain
    let u := function [array number 0 .plain] (named "P" .plain).pointerTo { optional := true }
    let v := function [(array number 7 .plain).pointerTo] (named "P" .plain) .plain
    let nil := ofPrimitive .nil
    (t.Avoids .nil ∧ u.Avoids .nil ∧ v.Avoids .nil) ∧ (t.agrees u = true ∧ u.agrees v = true) ∧
      t.bare = u.bare ∧ t.agrees v = true ∧ nil.isNil = true ∧ nil.agrees maybe = true ∧ ¬nil.agrees t = true := by
  intro number maybe t u v nil
  have ht : t.Avoids .nil := by simp [t, maybe, number, ofPrimitive, withFlags, setFlags, Avoids, AvoidsAll]
  have hu : u.Avoids .nil := by simp [u, number, ofPrimitive, pointerTo, withFlags, setFlags, Avoids, AvoidsAll]
  have hv : v.Avoids .nil := by simp [v, number, ofPrimitive, pointerTo, withFlags, setFlags, Avoids, AvoidsAll]
  have agrees : t.agrees u = true ∧ u.agrees v = true := by decide
  obtain ⟨_, _, _, _, bare, trans, _⟩ := agrees_congruence t u
  obtain ⟨_, _, _, _, _, _, present⟩ := agrees_congruence nil maybe
  obtain ⟨_, _, _, _, _, _, absent⟩ := agrees_congruence nil t
  exact ⟨⟨ht, hu, hv⟩, agrees, (bare ht hu).mp agrees.1, trans v ht hu hv agrees.1 agrees.2, rfl,
    (present rfl).mpr (.inr rfl), fun h => absurd ((absent rfl).mp h) (by decide)⟩

/-- Through `nil`, two optional types that have nothing in common agree with a third, in arrays too. -/
example :
    let number := (ofPrimitive .i32).withFlags { optional := true }
    let text := (ofPrimitive .string).withFlags { optional := true }
    let nil := ofPrimitive .nil
    let several (t : Ty) := array t 0 .plain
    ((several number).agrees (several nil) = true ∧ (several nil).agrees (several text) = true) ∧
      (several number).agrees (several text) = false := by
  decide

end Ty
end OnePass
