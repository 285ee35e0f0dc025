import OnePass.Proofs.Ty.Written

/-!
Which flags matter where types are compared: a pointer is not stored where a value is expected, and what is
optional may be `nil`. How a variable is bound does not matter.
-/

namespace OnePass
namespace Ty

mutual

theorem agrees_refl : (t : Ty) → t.agrees t = true
  | primitive .. => by simp [agrees]
  | named .. => by simp [agrees]
  | array e _ _ => by simp [agrees, agrees_refl e]
  | function ps r _ => by simp [agrees, agreesAll_refl ps, agrees_refl r]

theorem agreesAll_refl : (ts : List Ty) → agreesAll ts ts = true
  | [] => by simp [agreesAll]
  | t :: ts => by simp [agreesAll, agrees_refl t, agreesAll_refl ts]

end

theorem agrees_setFlags_self (t : Ty) (f : Flags) : (t.setFlags f).agrees t = true := by
  cases t <;> simp [setFlags, agrees, agrees_refl, agreesAll_refl]

section SetFlags

variable (t : Ty) (f : Flags)

@[simp] theorem kind?_setFlags : (t.setFlags f).kind? = t.kind? := by cases t <;> rfl

@[simp] theorem width_setFlags : (t.setFlags f).width = t.width := by cases t <;> rfl

end SetFlags

section Slot

variable {t : Ty} {f : Flags} (hp : f.pointer = t.isPointer) (ho : f.optional = t.isOptional)

include ho

theorem agrees_setFlags (u : Ty) : (t.setFlags f).agrees u = t.agrees u := by
  have nil : nilAgrees (t.setFlags f) u = nilAgrees t u := by
    simp only [nilAgrees, isNil, isKind, kind?_setFlags, isOptional, flags_setFlags] at ho ⊢
    rw [ho]
  unfold agrees
  rw [nil]
  cases t <;> cases u <;> rfl

include hp

theorem accepts_setFlags (u : Ty) : (t.setFlags f).accepts u = t.accepts u := by
  have pointer : (t.setFlags f).isPointer = t.isPointer := by rw [isPointer, flags_setFlags, hp]
  simp only [accepts, widens, agrees_setFlags ho, kind?_setFlags, width_setFlags, pointer]

end Slot

end Ty
end OnePass
