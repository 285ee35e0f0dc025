import OnePass.Proofs.Ty.Faithful

/-!
What one type accepts of another. Where `nil` does not come in, two types agree if and only if they are the
same without their marks, so a pointer is accepted for a value and an optional value for one that is always
there. Marks are looked at where the types differ in more than that: a number is stored in a wider one of its
sort only if neither is a pointer.
-/

namespace OnePass
namespace Ty

mutual

/-- The built-in type does not occur in a type, however deep. -/
def Avoids (k : Primitive) : Ty → Prop
  | primitive l _ _ => l ≠ k
  | named .. => True
  | array e _ _ => e.Avoids k
  | function ps r _ => AvoidsAll k ps ∧ r.Avoids k

def AvoidsAll (k : Primitive) : List Ty → Prop
  | [] => True
  | t :: ts => t.Avoids k ∧ AvoidsAll k ts

end

theorem Avoids.isNil {t : Ty} (h : t.Avoids .nil) : t.isNil = false := by
  cases t with
  | primitive k =>
      rw [Avoids] at h
      simpa [Ty.isNil, isKind, kind?] using h
  | named | array | function => rfl

/-! ### Agreement -/

mutual

theorem bare_of_agrees (t u : Ty) (ht : t.Avoids .nil) (hu : u.Avoids .nil) (h : t.agrees u = true) :
    t.bare = u.bare := by
  unfold agrees at h
  rw [nilAgrees_eq_false ht.isNil hu.isNil, Bool.or_false] at h
  cases t <;> cases u <;> simp only [reduceCtorEq, beq_iff_eq, Bool.and_eq_true] at h
  case primitive.primitive => rw [bare, bare, h]
  case named.named => rw [bare, bare, h]
  case array.array e _ _ e' _ _ => rw [bare, bare, bare_of_agrees e e' ht hu h]
  case function.function ps r _ ps' r' _ =>
    rw [bare, bare, bares_of_agreesAll ps ps' ht.1 hu.1 h.1, bare_of_agrees r r' ht.2 hu.2 h.2]

theorem bares_of_agreesAll (ts us : List Ty) (ht : AvoidsAll .nil ts) (hu : AvoidsAll .nil us)
    (h : agreesAll ts us = true) : bares ts = bares us := by
  match ts, us with
  | [], [] => rfl
  | [], _ :: _ | _ :: _, [] => simp [agreesAll] at h
  | t :: ts, u :: us =>
      simp only [agreesAll, Bool.and_eq_true] at h
      rw [bares, bares, bare_of_agrees t u ht.1 hu.1 h.1, bares_of_agreesAll ts us ht.2 hu.2 h.2]

end

/-- The lengths of arrays and the marks on them are not looked at, nor is either of them `nil`. -/
theorem agrees_array {t u : Ty} {l l' : Nat} {f f' : Flags} : (array t l f).agrees (array u l' f') = t.agrees u := by
  rw [agrees, nilAgrees_eq_false rfl rfl, Bool.or_false]

/-- Where `nil` does not occur, only marks, lengths and stored widths are forgotten. -/
theorem agrees_iff_bare {t u : Ty} (ht : t.Avoids .nil) (hu : u.Avoids .nil) :
    t.agrees u = true ↔ t.bare = u.bare :=
  ⟨bare_of_agrees t u ht hu, agrees_of_bare t u⟩

/-! ### Acceptance -/

/-- Both are numbers of one sort, neither is a pointer, and the second is strictly narrower. -/
structure Widening (t u : Ty) : Prop where
  sort : t.isInteger = true ∧ u.isInteger = true ∨ t.isFloat = true ∧ u.isFloat = true
  target : t.isPointer = false
  actual : u.isPointer = false
  narrower : u.width < t.width

theorem widens_iff {t u : Ty} : t.widens u = true ↔ Widening t u := by
  unfold widens
  split
  · rename_i k l hk hl
    simp only [Bool.and_eq_true, Bool.or_eq_true, Bool.not_eq_true', decide_eq_true_eq]
    constructor
    · rintro ⟨⟨⟨htarget, hactual⟩, hsort⟩, hwidth⟩
      exact ⟨by simpa [isInteger, isFloat, hk, hl] using hsort, htarget, hactual, hwidth⟩
    · rintro ⟨hsort, htarget, hactual, hwidth⟩
      exact ⟨⟨⟨htarget, hactual⟩, by simpa [isInteger, isFloat, hk, hl] using hsort⟩, hwidth⟩
  · rename_i other
    refine ⟨fun h => absurd h Bool.false_ne_true, ?_⟩
    rintro ⟨hsort, _, _, _⟩
    cases hk : t.kind? with
    | none => simp [isInteger, isFloat, hk] at hsort
    | some k =>
        cases hl : u.kind? with
        | none => simp [isInteger, isFloat, hl] at hsort
        | some l => exact (other k l hk hl).elim

theorem accepts_iff {t u : Ty} (ht : t.Avoids .nil) (hu : u.Avoids .nil) :
    t.accepts u = true ↔ t.bare = u.bare ∨ Widening t u := by
  rw [accepts, Bool.or_eq_true, agrees_iff_bare ht hu, widens_iff]

section SetFlags

variable {t u : Ty} {f g : Flags}

theorem avoids_setFlags {k : Primitive} : (t.setFlags f).Avoids k ↔ t.Avoids k := by
  cases t <;> simp only [setFlags, Avoids]

theorem widening_setFlags (hf : f.pointer = t.isPointer) (hg : g.pointer = u.isPointer) :
    Widening (t.setFlags f) (u.setFlags g) ↔ Widening t u := by
  rw [← widens_iff, ← widens_iff]
  simp only [widens, kind?_setFlags, width_setFlags, isPointer, flags_setFlags] at hf hg ⊢
  rw [hf, hg]

end SetFlags

/-- Without `nil`, a type accepts another if and only if they differ in no more than their marks, or the other
is a narrower number of its sort and neither is a pointer. So of two types that differ in more, both are pointers
or none is; and but for that of a pointer, no mark on the outside of a type is looked at. -/
theorem accepts_iff_storage {target actual : Ty} (ht : target.Avoids .nil) (ha : actual.Avoids .nil) :
    (target.accepts actual = true ↔ target.bare = actual.bare ∨ Widening target actual) ∧
      (target.accepts actual = true → target.bare ≠ actual.bare → target.isPointer = actual.isPointer) ∧
      ∀ f g : Flags, f.pointer = target.isPointer → g.pointer = actual.isPointer →
        (target.setFlags f).accepts (actual.setFlags g) = target.accepts actual := by
  have accepted := accepts_iff ht ha
  refine ⟨accepted, fun h hne => ?_, fun f g hf hg => ?_⟩
  · have wider := (accepted.mp h).resolve_left hne
    rw [wider.target, wider.actual]
  · rw [Bool.eq_iff_iff, accepted, accepts_iff (avoids_setFlags.mpr ht) (avoids_setFlags.mpr ha), bare_setFlags,
      bare_setFlags, widening_setFlags hf hg]

/-- An optional number of 32 bits goes where one of 64 bits is expected, but no pointer to it does; nor does it
go where a text is. -/
theorem accepts_iff_storage_optional :
    let wide := ofPrimitive .i64
    let narrow := (ofPrimitive .i32).withFlags { optional := true }
    (wide.accepts narrow = true ∧ wide.accepts narrow.pointerTo = false ∧
      (ofPrimitive .string).accepts narrow = false) ∧
    (wide.accepts narrow = true ↔ wide.bare = narrow.bare ∨ Widening wide narrow) ∧
      (wide.accepts narrow = true → wide.bare ≠ narrow.bare → wide.isPointer = narrow.isPointer) ∧
      ∀ f g : Flags, f.pointer = wide.isPointer → g.pointer = narrow.isPointer →
        (wide.setFlags f).accepts (narrow.setFlags g) = wide.accepts narrow := by
  intro wide narrow
  have hwide : wide.Avoids .nil := by simp [wide, ofPrimitive, Avoids]
  have hnarrow : narrow.Avoids .nil := by simp [narrow, ofPrimitive, withFlags, setFlags, Avoids]
  exact ⟨by decide, accepts_iff_storage hwide hnarrow⟩

/-- A number goes where a pointer is expected and a pointer where a number is, and what may be `nil` goes where
there is always a number. -/
theorem accepts_across_storage :
    let number := ofPrimitive .i32
    let pointer := number.pointerTo
    let optional := number.withFlags { optional := true }
    (∀ t ∈ [number, pointer, optional], t.Avoids .nil ∧ t.Avoids .unknown) ∧
      (number.isPointer = false ∧ pointer.isPointer = true ∧ number.isOptional = false ∧
        optional.isOptional = true) ∧
      pointer.accepts number = true ∧ number.accepts pointer = true ∧ number.accepts optional = true := by
  intro number pointer optional
  refine ⟨?_, by decide⟩
  simp [number, pointer, optional, ofPrimitive, pointerTo, withFlags, setFlags, Avoids]

end Ty
end OnePass
