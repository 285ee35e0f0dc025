import OnePass.Proofs.Tree.Occurrence
import OnePass.Proofs.Ty.Acceptance
import OnePass.Proofs.Typing.Conformance

/-!
Integers and the ranges of the slots that they meet. Whatever a slot takes, an integer in it without a suffix is
in the range of the slot, be it the value itself or an element of an array at any depth. An integer with a
suffix is not compared with the range: all that is known is that its slot is of the type that the suffix stands
for. Where a slot has its type from the value, only the first elements are known to be of that type, and a
number may be below the range if its size alone has given it its type.
-/

namespace OnePass

/-- The integer that a literal stands for, under any number of minus signs, and whether it has a suffix. -/
def Expr.integer? : Expr → Option (Int × Bool)
  | .literal (.integer value long) _ => some (value, long)
  | .unary .negate operand _ => operand.integer?.map fun n => (-n.1, n.2)
  | _ => none

/-- The least and the greatest value of a slot for integers, which no pointer is. -/
def Ty.range? (t : Ty) : Option (Int × Int) := if t.isPointer then none else t.kind?.bind (·.range?)

theorem Primitive.width_le (k : Primitive) : k.width ≤ 64 := by cases k <;> decide

namespace Typing

variable {reg : Registry} {scope : ScopeId}

/-- A value meets a slot, and so do the elements of arrays that meet one for arrays. -/
inductive Meets (slot : Ty) (value : Expr) : Ty → Expr → Prop where
  | whole : Meets slot value slot value
  | element {q : Ty} {l : Nat} {f : Flags} {es : List Expr} {span : Span} {e : Expr}
      (array : Meets slot value (.array q l f) (.array es span)) (member : e ∈ es) : Meets slot value q e

/-- A value meets a slot, and so do the first elements of arrays that meet one for arrays. -/
inductive MeetsFirst (slot : Ty) (value : Expr) : Ty → Expr → Prop where
  | whole : MeetsFirst slot value slot value
  | element {q : Ty} {l : Nat} {f : Flags} {es : List Expr} {span : Span} {e : Expr}
      (array : MeetsFirst slot value (.array q l f) (.array (e :: es) span)) : MeetsFirst slot value q e

/-- An integer is in the range of its slot; if it has a suffix, its slot is of the type for that. -/
def Within (slot : Ty) (value : Expr) : Prop :=
  ∀ n long least greatest, value.integer? = some (n, long) → slot.range? = some (least, greatest) →
    if long then slot.kind? = some .i64 else least ≤ n ∧ n ≤ greatest

/-- An integer is too low for its slot, which has its type from the size of the integer. -/
def Below (slot : Ty) (value : Expr) : Prop :=
  slot.kind? = some .u64 ∧ ∃ n, value.integer? = some (n, false) ∧ n ≤ -twoTo 63

/-- All integers that meet a slot are within it. -/
def Bounded (slot : Ty) (value : Expr) : Prop := ∀ t e, Meets slot value t e → Within t e

/-- The first integer that meets a slot is within it, or it is too low. -/
def BoundedFirst (slot : Ty) (value : Expr) : Prop :=
  ∀ t e, MeetsFirst slot value t e → Within t e ∨ Below t e

/-! ### Integers -/

theorem literalValue?_of_integer? {e : Expr} {n : Int} (h : e.integer? = some (n, false)) :
    e.literalValue? = some n := by
  fun_induction Expr.integer? e generalizing n with
  | case1 value long =>
      obtain ⟨rfl, rfl⟩ := Prod.mk.inj (Option.some.inj h)
      rfl
  | case2 operand span ih =>
      obtain ⟨m, hm, heq⟩ := Option.map_eq_some_iff.mp h
      obtain ⟨rfl, hlong⟩ := Prod.mk.inj heq
      rw [Expr.literalValue?, ih (hm.trans (by rw [← hlong]))]
      rfl
  | case3 => cases h

/-- An integer with a suffix has the type for that, whatever signs are in front of it. -/
theorem infer_of_integer? (reg : Registry) (scope : ScopeId) {e : Expr} {n : Int}
    (h : e.integer? = some (n, true)) :
    e.literalValue? = none ∧ infer reg scope e = .ok (.ofPrimitive .i64) := by
  fun_induction Expr.integer? e generalizing n with
  | case1 value long =>
      obtain ⟨rfl, rfl⟩ := Prod.mk.inj (Option.some.inj h)
      exact ⟨rfl, rfl⟩
  | case2 operand span ih =>
      obtain ⟨m, hm, heq⟩ := Option.map_eq_some_iff.mp h
      obtain ⟨hvalue, hinfer⟩ := ih (hm.trans (by rw [← (Prod.mk.inj heq).2]))
      rw [Expr.literalValue?, hvalue, infer, hinfer]
      exact ⟨rfl, rfl⟩
  | case3 => cases h

theorem kind?_of_range? {t : Ty} {least greatest : Int} (h : t.range? = some (least, greatest)) :
    t.isPointer = false ∧ ∃ k, t.kind? = some k ∧ k.range? = some (least, greatest) := by
  unfold Ty.range? at h
  split at h
  · cases h
  · rename_i hpointer
    exact ⟨Bool.eq_false_iff.mpr hpointer, Option.bind_eq_some_iff.mp h⟩

/-- Nothing is wider than 64 bits, so no other integer takes one that is as wide as that. -/
theorem kind?_of_accepts {t : Ty} {least greatest : Int} (ht : t.Sized)
    (hrange : t.range? = some (least, greatest)) (h : t.accepts (.ofPrimitive .i64) = true) :
    t.kind? = some .i64 := by
  obtain ⟨_, k, hkind, hk⟩ := kind?_of_range? hrange
  cases t <;> cases hkind
  rename_i width flags _
  have target : (Ty.primitive k width flags).Avoids .nil := by
    rintro rfl
    cases hk
  have actual : (Ty.ofPrimitive .i64).Avoids .nil := by simp [Ty.ofPrimitive, Ty.Avoids]
  rcases (Ty.accepts_iff target actual).mp h with hbare | hwidening
  · rw [← Ty.kind?_bare, hbare]
    rfl
  · have width_eq : width = k.width := ht
    exact absurd hwidening.narrower (Nat.not_lt.mpr (width_eq ▸ k.width_le))

/-! ### Slots that are checked -/

/-- What a slot takes is within it. -/
theorem within_of_coerces {t : Ty} {e : Expr} (ht : t.Sized) (h : coerces reg scope t e = .ok true) :
    Within t e := by
  intro n long least greatest hn hrange
  obtain ⟨hpointer, k, hkind, hk⟩ := kind?_of_range? hrange
  cases long with
  | false => exact (coerces_iff_range (literalValue?_of_integer? hn) hpointer hkind hk).mp h
  | true =>
      obtain ⟨hnone, hinfer⟩ := infer_of_integer? reg scope hn
      cases takes_of_coerces h with
      | literal hvalue => cases hnone.symm.trans hvalue
      | array hslot =>
          subst hslot
          cases hkind
      | type _ hu haccepts =>
          obtain rfl := Except.ok.inj (hinfer.symm.trans hu)
          exact kind?_of_accepts ht hrange haccepts

/-- A slot takes what meets it, if it takes the whole. -/
theorem coerces_of_meets {slot t : Ty} {value e : Expr} (h : coerces reg scope slot value = .ok true)
    (hm : Meets slot value t e) : coerces reg scope t e = .ok true := by
  induction hm with
  | whole => exact h
  | @element q l f es span e _ member ih =>
      obtain _ | ⟨first, es⟩ := es
      · cases member
      · obtain ⟨hfirst, hrest⟩ := coerces_array_iff.mp ih
        rcases List.mem_cons.mp member with rfl | member
        · exact hfirst
        · exact hrest e member

theorem sized_of_meets {slot t : Ty} {value e : Expr} (h : slot.Sized) (hm : Meets slot value t e) :
    t.Sized := by
  induction hm with
  | whole => exact h
  | element _ _ ih => exact Ty.hereditary_sized.array.mp ih

theorem bounded_of_coerces {slot : Ty} {value : Expr} (hslot : slot.Sized)
    (h : coerces reg scope slot value = .ok true) : Bounded slot value :=
  fun _ _ hm => within_of_coerces (sized_of_meets hslot hm) (coerces_of_meets h hm)

/-! ### Slots that have their types from the values -/

/-- An integer is within a slot of its own type, unless it is negative and its size alone has given it the type. -/
theorem within_or_below {t u : Ty} {e : Expr} (hu : infer reg scope e = .ok u)
    (hsmall : ∀ n long, e.integer? = some (n, long) → n < twoTo 64)
    (hkind : ∀ k, k ≠ .unknown → u = .ofPrimitive k → t.kind? = some k) : Within t e ∨ Below t e := by
  cases hn : e.integer? with
  | none => exact .inl fun _ _ _ _ hsome => nomatch hn.symm.trans hsome
  | some found =>
      obtain ⟨n, long⟩ := found
      have within (h : ∀ least greatest, t.range? = some (least, greatest) →
          if long then t.kind? = some .i64 else least ≤ n ∧ n ≤ greatest) : Within t e := by
        intro n' long' least greatest hn' hrange
        obtain ⟨rfl, rfl⟩ := Prod.mk.inj (Option.some.inj (hn.symm.trans hn'))
        exact h least greatest hrange
      cases long with
      | true =>
          obtain ⟨_, hinfer⟩ := infer_of_integer? reg scope hn
          have slot := hkind .i64 (by decide) (Except.ok.inj (hu.symm.trans hinfer))
          exact .inl (within fun _ _ _ => slot)
      | false =>
          obtain ⟨size, hsize, hinfer⟩ := infer_of_literalValue? reg scope (literalValue?_of_integer? hn)
          obtain ⟨k, least, greatest, htype, hrange, hwide, hlow⟩ := literal_range hsize
          have known : k ≠ .unknown := by
            rintro rfl
            cases hrange
          have slot := hkind k known ((Except.ok.inj (hu.symm.trans hinfer)).trans htype)
          by_cases inside : least ≤ n ∧ n ≤ greatest
          · refine .inl (within fun least' greatest' hslot => ?_)
            obtain ⟨_, k', hk', hrange'⟩ := kind?_of_range? hslot
            obtain rfl := Option.some.inj (slot.symm.trans hk')
            obtain ⟨rfl, rfl⟩ := Prod.mk.inj (Option.some.inj (hrange.symm.trans hrange'))
            exact inside
          · have wide : k = .u64 := by
              by_contra hk
              exact inside (hwide.mpr fun h => absurd h hk)
            have low := mt hlow.mpr inside
            have small := hsmall n false hn
            exact .inr ⟨wide ▸ slot, n, hn, by omega⟩

/-- What is known of a slot and the type of its value is known of the first elements, and of their types. -/
theorem exists_infer_of_meetsFirst {R : Ty → Ty → Prop}
    (helement : ∀ {q u l m f g}, R (.array q l f) (.array u m g) → R q u) {slot t u : Ty} {value e : Expr}
    (hu : infer reg scope value = .ok u) (h : R slot u) (hm : MeetsFirst slot value t e) :
    ∃ v, infer reg scope e = .ok v ∧ R t v := by
  induction hm with
  | whole => exact ⟨u, hu, h⟩
  | element _ ih =>
      obtain ⟨v, hv, hR⟩ := ih
      obtain ⟨w, hw, heq⟩ := bind_eq_ok.mp hv
      obtain rfl := Except.ok.inj heq
      exact ⟨w, hw, helement hR⟩

section First

variable {slot u : Ty} {value : Expr} (hu : infer reg scope value = .ok u)
  (hsmall : ∀ t e, MeetsFirst slot value t e → ∀ n long, e.integer? = some (n, long) → n < twoTo 64)

include hu hsmall

/-- A slot whose type is that of the value, but for marks. -/
theorem boundedFirst_of_bare (h : slot.bare = u.bare) : BoundedFirst slot value := by
  intro t e hm
  have element {q v : Ty} {l m : Nat} {f g : Flags} (h : (Ty.array q l f).bare = (Ty.array v m g).bare) :
      q.bare = v.bare := by
    simpa only [Ty.bare, Ty.array.injEq, and_true] using h
  obtain ⟨v, hv, hbare⟩ := exists_infer_of_meetsFirst (R := fun t u => t.bare = u.bare) element hu h hm
  refine within_or_below hv (hsmall t e hm) fun k _ hk => ?_
  rw [← Ty.kind?_bare, hbare, hk]
  rfl

/-- A slot whose type is spelt like that of the value. -/
theorem boundedFirst_of_shape (hslot : slot.Written (Named Token.Names)) (h : slot.shape = u.shape) :
    BoundedFirst slot value := by
  intro t e hm
  have read : slot.bare = u.shape.type := by
    rw [← h, Ty.type_shape slot hslot.mentions (Ty.faithful_of_spelt slot hslot.2)]
  obtain ⟨v, hv, hbare⟩ := exists_infer_of_meetsFirst (R := fun t u => t.bare = u.shape.type)
    (fun h => (Ty.element_of_bare h).2) hu read hm
  refine within_or_below hv (hsmall t e hm) fun k known hk => ?_
  rw [← Ty.kind?_bare, hbare, hk, Ty.type_shape _ (Ty.mentions_ofPrimitive k) known]
  rfl

end First

end Typing
end OnePass
