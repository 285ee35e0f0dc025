import Mathlib.Data.List.Perm.Basic
import OnePass.Proofs.Success
import OnePass.Proofs.Ty.Agreement

/-!
Operands in any order. Values that are no pointers are unified two at a time, from the left. Whether two of
them can be is an equivalence: numbers go with numbers, any other built-in type with itself, and a struct with
itself. What two are unified to goes with the same types as they do, so that a whole list can be unified if
and only if all of it goes with its first element, wherever that stands.

Of numbers the result is as wide as the widest of them, and it is a float if one of them is. Of equally wide
integers it is the first one, so that only its sort and its width do not depend on the order.
-/

namespace OnePass

/-! ### Sorts of numbers -/

namespace Primitive

variable {k l : Primitive}

def isNumeric (k : Primitive) : Bool := k.isInteger || k.isFloat

theorem isFloat_of_isInteger (h : k.isInteger = true) : k.isFloat = false := by
  revert h
  cases k <;> decide

theorem width_cases (k : Primitive) : k.width ≤ 32 ∨ k.width = 64 := by cases k <;> decide

theorem width_of_isFloat (h : k.isFloat = true) : k.width = 32 ∨ k.width = 64 := by
  revert h
  cases k <;> decide

theorem isFloat_floatOfWidth (bits : Nat) : (floatOfWidth bits).isFloat = true := by
  unfold floatOfWidth
  split <;> rfl

theorem width_floatOfWidth {bits : Nat} (h : bits = 32 ∨ bits = 64) : (floatOfWidth bits).width = bits := by
  rcases h with rfl | rfl <;> rfl

/-- The wider of two has 32 bits or 64 if one of them is a float. -/
theorem max_width_of_isFloat (h : (k.isFloat || l.isFloat) = true) :
    max k.width l.width = 32 ∨ max k.width l.width = 64 := by
  have := k.width_cases
  have := l.width_cases
  rcases Bool.or_eq_true_iff.mp h with h | h <;> have := width_of_isFloat h <;> omega

end Primitive

namespace Ty

/-- A built-in type in its own width, no pointer. -/
structure OfKind (k : Primitive) (t : Ty) : Prop where
  value : t.isPointer = false
  kind : t.kind? = some k
  width : t.width = k.width

/-- A built-in type in its own width or a struct, and in either case no pointer. -/
inductive Operand (t : Ty) : Prop where
  | primitive {k : Primitive} (h : t.OfKind k)
  | struct {name : String} (value : t.isPointer = false) (h : t.structName? = some name)

def isNumeric (t : Ty) : Bool := t.isInteger || t.isFloat

/-- The two can be unified: both are numbers, or of one kind, or the same struct. -/
inductive Kindred (t u : Ty) : Prop where
  | numbers (left : t.isNumeric = true) (right : u.isNumeric = true)
  | kind {k : Primitive} (left : t.kind? = some k) (right : u.kind? = some k)
  | struct {name : String} (left : t.structName? = some name) (right : u.structName? = some name)

/-- All can be unified: there is only one, or all are numbers, or of one kind, or the same struct. -/
def Unifiable (ts : List Ty) : Prop :=
  ts.length = 1 ∨ (∀ t ∈ ts, t.isNumeric = true) ∨ (∃ k, ∀ t ∈ ts, t.kind? = some k) ∨
    ∃ name, ∀ t ∈ ts, t.structName? = some name

/-- What numbers are unified to, as far as their order does not matter: if there is a float among them, a float
of 64 bits if one of them has as many, and of 32 if none has; otherwise an integer as wide as the widest. -/
def Promotes (ts : List Ty) (r : Ty) : Prop :=
  if ts.any (·.isFloat) then r.isFloat = true ∧ r.width = if ts.any (·.width == 64) then 64 else 32
  else r.isInteger = true ∧ (ts.map (·.width)).max? = some r.width

variable {t u v r : Ty} {ts us : List Ty} {k l : Primitive}

/-! ### Kinds -/

theorem isPointer_rvalue (t : Ty) : t.rvalue.isPointer = t.isPointer := by
  cases t <;> exact Bool.and_true _

theorem structName?_rvalue (t : Ty) : t.rvalue.structName? = t.structName? := by cases t <;> rfl

theorem kind?_of_structName? {name : String} (h : t.structName? = some name) : t.kind? = none := by
  cases t with
  | named => rfl
  | primitive | array | function => cases h

theorem isNumeric_of_kind? (h : t.kind? = some k) : t.isNumeric = k.isNumeric := by
  rw [isNumeric, isInteger, isFloat, h, Option.any_some, Option.any_some, Primitive.isNumeric]

theorem isNumeric_of_structName? {name : String} (h : t.structName? = some name) : t.isNumeric = false := by
  rw [isNumeric, isInteger, isFloat, kind?_of_structName? h, Option.any_none, Option.any_none, Bool.or_self]

theorem OfKind.rvalue (h : t.OfKind k) : t.rvalue.OfKind k where
  value := (isPointer_rvalue t).trans h.value
  kind := by rw [Ty.rvalue, withoutFlags, kind?_setFlags, h.kind]
  width := by rw [Ty.rvalue, withoutFlags, width_setFlags, h.width]

theorem ofKind_ofPrimitive (k : Primitive) : (ofPrimitive k).OfKind k := ⟨rfl, rfl, rfl⟩

/-! ### Two operands -/

theorem dominant_of_kinds (ht : t.OfKind k) (hu : u.OfKind l) : t.dominant u = dominantPrimitive t u k l := by
  obtain ⟨ht, hk, _⟩ := ht
  obtain ⟨hu, hl, _⟩ := hu
  cases t <;> cases hk
  cases u <;> cases hl
  simp [dominant, ht, hu]

theorem dominant_of_structs {n m : String} (ht : t.isPointer = false) (hu : u.isPointer = false)
    (hn : t.structName? = some n) (hm : u.structName? = some m) :
    t.dominant u = if n = m then .ok t.rvalue else .error (.noDominantType t u) := by
  cases t <;> cases hn
  cases u <;> cases hm
  simp [dominant, ht, hu]

/-- Of two of one kind the first is taken. -/
theorem dominant_of_kind (ht : t.OfKind k) (hu : u.OfKind k) : t.dominant u = .ok t.rvalue := by
  rw [dominant_of_kinds ht hu, dominantPrimitive, ht.width, hu.width, if_neg (Nat.lt_irrefl _), if_pos rfl]
  cases hk : k.isInteger with
  | true => rfl
  | false => simp

/-- A built-in type and a struct are not unified, in whichever order. -/
theorem dominant_of_mixture {n : String} (ht : t.isPointer = false) (hu : u.isPointer = false)
    (hk : t.kind? = some k) (hn : u.structName? = some n) :
    t.dominant u = .error (.primitiveWithNamed t u) ∧ u.dominant t = .error (.primitiveWithNamed u t) := by
  cases t <;> cases hk
  cases u <;> cases hn
  simp [dominant, ht, hu]

/-- Two numbers are unified to one as wide as the wider of them, and to a float if one of them is. -/
theorem dominant_of_numbers (ht : t.OfKind k) (hu : u.OfKind l) (hk : k.isNumeric = true)
    (hl : l.isNumeric = true) :
    ∃ r m, t.dominant u = .ok r ∧ r.OfKind m ∧ m.isNumeric = true ∧
      m.isFloat = (k.isFloat || l.isFloat) ∧ m.width = max k.width l.width := by
  rw [dominant_of_kinds ht hu, dominantPrimitive, ht.width, hu.width]
  by_cases same : ((k.isInteger && l.isInteger) || (k.isFloat && l.isFloat)) = true
  · rw [if_pos same]
    have sort : k.isFloat = l.isFloat := by
      simp only [Bool.or_eq_true, Bool.and_eq_true] at same
      rcases same with ⟨hk, hl⟩ | ⟨hk, hl⟩
      · rw [Primitive.isFloat_of_isInteger hk, Primitive.isFloat_of_isInteger hl]
      · rw [hk, hl]
    split
    · rename_i h
      exact ⟨_, l, rfl, hu.rvalue, hl, by rw [sort, Bool.or_self], (Nat.max_eq_right (Nat.le_of_lt h)).symm⟩
    · rename_i h
      exact ⟨_, k, rfl, ht.rvalue, hk, by rw [sort, Bool.or_self], (Nat.max_eq_left (Nat.le_of_not_lt h)).symm⟩
  · have mixed : (k.isFloat && l.isInteger || k.isInteger && l.isFloat) = true := by
      simp only [Primitive.isNumeric] at hk hl
      grind
    have float : (k.isFloat || l.isFloat) = true := by grind
    have bits := Primitive.max_width_of_isFloat float
    rw [if_neg same, if_pos mixed]
    refine ⟨_, _, rfl, ofKind_ofPrimitive _, ?_, ?_, Primitive.width_floatOfWidth bits⟩
    · rw [Primitive.isNumeric, Primitive.isFloat_floatOfWidth, Bool.or_true]
    · rw [Primitive.isFloat_floatOfWidth, float]

/-! ### What goes with what -/

theorem Kindred.symm (h : t.Kindred u) : u.Kindred t := by
  cases h with
  | numbers ht hu => exact .numbers hu ht
  | kind ht hu => exact .kind hu ht
  | struct ht hu => exact .struct hu ht

theorem Kindred.isNumeric_eq (h : t.Kindred u) : t.isNumeric = u.isNumeric := by
  cases h with
  | numbers ht hu => rw [ht, hu]
  | kind ht hu => rw [isNumeric_of_kind? ht, isNumeric_of_kind? hu]
  | struct ht hu => rw [isNumeric_of_structName? ht, isNumeric_of_structName? hu]

theorem Kindred.trans (h : t.Kindred u) (h' : u.Kindred v) : t.Kindred v := by
  by_cases number : u.isNumeric = true
  · exact .numbers (h.isNumeric_eq.trans number) (h'.isNumeric_eq.symm.trans number)
  · cases h with
    | numbers _ hu => exact absurd hu number
    | kind ht hu =>
        cases h' with
        | numbers hu' _ => exact absurd hu' number
        | kind hu' hv => exact .kind ht (Option.some.inj (hu.symm.trans hu') ▸ hv)
        | struct hu' _ => cases (kind?_of_structName? hu').symm.trans hu
    | struct ht hu =>
        cases h' with
        | numbers hu' _ => exact absurd hu' number
        | kind hu' _ => cases (kind?_of_structName? hu).symm.trans hu'
        | struct hu' hv => exact .struct ht (Option.some.inj (hu.symm.trans hu') ▸ hv)

theorem Operand.value (h : t.Operand) : t.isPointer = false := by
  cases h with
  | primitive h => exact h.value
  | struct value => exact value

theorem Operand.ofKind (h : t.Operand) (hk : t.kind? = some k) : t.OfKind k := by
  cases h with
  | primitive h => exact Option.some.inj (h.kind.symm.trans hk) ▸ h
  | struct _ h => cases (kind?_of_structName? h).symm.trans hk

theorem Operand.number (h : t.Operand) (hn : t.isNumeric = true) : ∃ k, t.OfKind k ∧ k.isNumeric = true := by
  cases h with
  | @primitive k h => exact ⟨k, h, isNumeric_of_kind? h.kind ▸ hn⟩
  | struct _ h => cases (isNumeric_of_structName? h).symm.trans hn

/-- Operands that go together are unified, and the result goes with them. -/
theorem dominant_of_kindred (ht : t.Operand) (hu : u.Operand) (h : t.Kindred u) :
    ∃ r, t.dominant u = .ok r ∧ r.Operand ∧ t.Kindred r := by
  cases h with
  | numbers hnt hnu =>
      obtain ⟨k, hk, hnk⟩ := ht.number hnt
      obtain ⟨l, hl, hnl⟩ := hu.number hnu
      obtain ⟨r, m, hr, hm, numeric, _⟩ := dominant_of_numbers hk hl hnk hnl
      exact ⟨r, hr, .primitive hm, .numbers hnt ((isNumeric_of_kind? hm.kind).trans numeric)⟩
  | kind hk hl =>
      have hr := (ht.ofKind hk).rvalue
      exact ⟨_, dominant_of_kind (ht.ofKind hk) (hu.ofKind hl), .primitive hr, .kind hk hr.kind⟩
  | struct hn hm =>
      have hr := (structName?_rvalue t).trans hn
      refine ⟨t.rvalue, ?_, .struct ((isPointer_rvalue t).trans ht.value) hr, .struct hn hr⟩
      rw [dominant_of_structs ht.value hu.value hn hm, if_pos rfl]

/-- Operands that are unified go together. -/
theorem kindred_of_dominant (ht : t.Operand) (hu : u.Operand) (h : t.dominant u = .ok r) : t.Kindred u := by
  cases ht with
  | @primitive k ht =>
      cases hu with
      | @primitive l hu =>
          rw [dominant_of_kinds ht hu, dominantPrimitive] at h
          have numbers (hk : k.isNumeric = true) (hl : l.isNumeric = true) : t.Kindred u :=
            .numbers ((isNumeric_of_kind? ht.kind).trans hk) ((isNumeric_of_kind? hu.kind).trans hl)
          split at h
          · refine numbers ?_ ?_ <;> grind [Primitive.isNumeric]
          · split at h
            · refine numbers ?_ ?_ <;> grind [Primitive.isNumeric]
            · split at h
              · rename_i same
                exact .kind ht.kind (same ▸ hu.kind)
              · cases h
      | struct hu hm => cases (dominant_of_mixture ht.value hu ht.kind hm).1.symm.trans h
  | struct ht hn =>
      cases hu with
      | primitive hu => cases (dominant_of_mixture hu.value ht hu.kind hn).2.symm.trans h
      | struct hu hm =>
          rw [dominant_of_structs ht hu hn hm] at h
          split at h
          · rename_i same
            exact .struct hn (same ▸ hm)
          · cases h

/-! ### Any number of operands -/

/-- From the left, operands are unified if and only if all go with the first. -/
theorem foldlM_dominant_iff (ht : t.Operand) (hts : ∀ u ∈ ts, u.Operand) :
    (∃ r, ts.foldlM dominant t = .ok r) ↔ ∀ u ∈ ts, t.Kindred u := by
  induction ts generalizing t with
  | nil => exact ⟨fun _ => List.forall_mem_nil _, fun _ => ⟨t, rfl⟩⟩
  | cons u us ih =>
      obtain ⟨hu, hus⟩ := List.forall_mem_cons.mp hts
      rw [List.forall_mem_cons]
      constructor
      · rintro ⟨r, hr⟩
        obtain ⟨v, hv, hr⟩ := bind_eq_ok.mp hr
        have first := kindred_of_dominant ht hu hv
        obtain ⟨v', hv', operand, same⟩ := dominant_of_kindred ht hu first
        obtain rfl := Except.ok.inj (hv.symm.trans hv')
        exact ⟨first, fun w hw => same.trans ((ih operand hus).mp ⟨r, hr⟩ w hw)⟩
      · rintro ⟨first, rest⟩
        obtain ⟨v, hv, operand, same⟩ := dominant_of_kindred ht hu first
        obtain ⟨r, hr⟩ := (ih operand hus).mpr fun w hw => same.symm.trans (rest w hw)
        exact ⟨r, bind_eq_ok.mpr ⟨v, hv, hr⟩⟩

theorem unifiable_cons_iff (ht : t.Operand) : Unifiable (t :: ts) ↔ ∀ u ∈ ts, t.Kindred u := by
  constructor
  · rintro (one | numbers | ⟨k, hk⟩ | ⟨n, hn⟩) u hu
    · rw [List.length_eq_zero_iff.mp (Nat.succ.inj one)] at hu
      cases hu
    · exact .numbers (numbers t List.mem_cons_self) (numbers u (List.mem_cons_of_mem _ hu))
    · exact .kind (hk t List.mem_cons_self) (hk u (List.mem_cons_of_mem _ hu))
    · exact .struct (hn t List.mem_cons_self) (hn u (List.mem_cons_of_mem _ hu))
  · intro h
    have all {P : Ty → Prop} (here : P t) (there : ∀ u, t.Kindred u → P u) : ∀ u ∈ t :: ts, P u :=
      List.forall_mem_cons.mpr ⟨here, fun u hu => there u (h u hu)⟩
    by_cases number : t.isNumeric = true
    · exact .inr (.inl (all number fun u hu => hu.isNumeric_eq.symm.trans number))
    · cases ht with
      | @primitive k ht =>
          refine .inr (.inr (.inl ⟨k, all ht.kind fun u hu => ?_⟩))
          cases hu with
          | numbers hn => exact absurd hn number
          | kind hk hl => rw [hl, ← hk, ht.kind]
          | struct hn => cases (kind?_of_structName? hn).symm.trans ht.kind
      | @struct n _ ht =>
          refine .inr (.inr (.inr ⟨n, all ht fun u hu => ?_⟩))
          cases hu with
          | numbers hn => exact absurd hn number
          | kind hk => cases (kind?_of_structName? ht).symm.trans hk
          | struct hn hm => rw [hm, ← hn, ht]

theorem Unifiable.perm (h : us.Perm ts) (hu : Unifiable us) : Unifiable ts := by
  unfold Unifiable at hu ⊢
  simpa only [h.length_eq, h.mem_iff] using hu

/-! ### Numbers -/

theorem foldlM_dominant_numbers (ht : t.OfKind k) (hk : k.isNumeric = true)
    (hts : ∀ u ∈ ts, u.Operand ∧ u.isNumeric = true) :
    ∃ r m, ts.foldlM dominant t = .ok r ∧ r.OfKind m ∧ m.isNumeric = true ∧
      m.isFloat = (k.isFloat || ts.any (·.isFloat)) ∧
      m.width = (ts.map (·.width)).foldl max k.width := by
  induction ts generalizing t k with
  | nil => exact ⟨t, k, rfl, ht, hk, (Bool.or_false _).symm, rfl⟩
  | cons u us ih =>
      obtain ⟨⟨hu, number⟩, hus⟩ := List.forall_mem_cons.mp hts
      obtain ⟨l, hl, hnl⟩ := hu.number number
      obtain ⟨v, m, hv, hm, hnm, float, width⟩ := dominant_of_numbers ht hl hk hnl
      obtain ⟨r, m', hr, hm', hnm', float', width'⟩ := ih hm hnm hus
      refine ⟨r, m', bind_eq_ok.mpr ⟨v, hv, hr⟩, hm', hnm', ?_, ?_⟩
      · rw [float', float, List.any_cons, isFloat, hl.kind, Option.any_some, Bool.or_assoc]
      · rw [width', width, List.map_cons, List.foldl_cons, hl.width]

/-- The widest of numbers among which there is a float has 32 bits or 64. -/
theorem Promotes.of_max {m : Primitive} (hr : r.OfKind m) (hm : m.isNumeric = true)
    (hfloat : m.isFloat = ts.any (·.isFloat)) (hwidth : (ts.map (·.width)).max? = some m.width) : Promotes ts r := by
  unfold Promotes
  split
  · rename_i float
    rw [float] at hfloat
    refine ⟨by rw [isFloat, hr.kind, Option.any_some, hfloat], ?_⟩
    obtain ⟨widest, others⟩ := List.max?_eq_some_iff.mp hwidth
    have bits := Primitive.width_of_isFloat hfloat
    rw [hr.width]
    split
    · rename_i wide
      obtain ⟨t, ht, h⟩ := List.any_eq_true.mp wide
      have := others t.width (List.mem_map_of_mem ht)
      have : t.width = 64 := by simpa using h
      omega
    · rename_i narrow
      obtain ⟨t, ht, h⟩ := List.mem_map.mp widest
      refine bits.resolve_right fun wide => narrow (List.any_eq_true.mpr ⟨t, ht, ?_⟩)
      rw [h, wide]
      rfl
  · rename_i float
    rw [Bool.eq_false_iff.mpr float] at hfloat
    refine ⟨?_, by rw [hwidth, hr.width]⟩
    rw [Primitive.isNumeric, hfloat, Bool.or_false] at hm
    rw [isInteger, hr.kind, Option.any_some, hm]

theorem Promotes.perm (h : us.Perm ts) (hr : Promotes us r) : Promotes ts r := by
  have any (p : Ty → Bool) : us.any p = ts.any p := h.any_eq
  have widest : (us.map (·.width)).max? = some r.width ↔ (ts.map (·.width)).max? = some r.width := by
    rw [List.max?_eq_some_iff, List.max?_eq_some_iff]
    simp only [(h.map _).mem_iff]
  unfold Promotes at hr ⊢
  rwa [any, any, widest] at hr

theorem promotes_of_foldlM (h : ∀ u ∈ t :: ts, u.Operand) (hn : ∀ u ∈ t :: ts, u.isNumeric = true)
    (hr : ts.foldlM dominant t = .ok r) : Promotes (t :: ts) r := by
  obtain ⟨ht, hts⟩ := List.forall_mem_cons.mp h
  obtain ⟨hnt, hnts⟩ := List.forall_mem_cons.mp hn
  obtain ⟨k, hk, hnk⟩ := ht.number hnt
  obtain ⟨r', m, hr', hm, hnm, float, width⟩ :=
    foldlM_dominant_numbers hk hnk fun u hu => ⟨hts u hu, hnts u hu⟩
  obtain rfl := Except.ok.inj (hr.symm.trans hr')
  refine .of_max hm hnm ?_ ?_
  · rw [float, List.any_cons, isFloat, hk.kind, Option.any_some]
  · rw [width, List.map_cons, List.max?_cons', hk.width]

/-- Operands can be unified from the left in one order if and only if they can in every other, that is, if there is
only one of them, or all are numbers, or of one kind, or the same struct. Of numbers the sort and the width of
the result are the same for every order. -/
theorem foldlM_dominant_orderless (h : ∀ u ∈ t :: ts, u.Operand) :
    ((∃ r, ts.foldlM dominant t = .ok r) ↔ Unifiable (t :: ts)) ∧
      ∀ u us, (u :: us).Perm (t :: ts) →
        ((∃ r, us.foldlM dominant u = .ok r) ↔ ∃ r, ts.foldlM dominant t = .ok r) ∧
        ((∀ v ∈ t :: ts, v.isNumeric = true) → ∀ r, us.foldlM dominant u = .ok r → Promotes (t :: ts) r) := by
  have unified {t : Ty} {ts : List Ty} (h : ∀ u ∈ t :: ts, u.Operand) :
      (∃ r, ts.foldlM dominant t = .ok r) ↔ Unifiable (t :: ts) := by
    obtain ⟨ht, hts⟩ := List.forall_mem_cons.mp h
    rw [foldlM_dominant_iff ht hts, unifiable_cons_iff ht]
  refine ⟨unified h, fun u us hperm => ?_⟩
  have h' : ∀ v ∈ u :: us, v.Operand := fun v hv => h v (hperm.mem_iff.mp hv)
  constructor
  · rw [unified h, unified h']
    exact ⟨.perm hperm, .perm hperm.symm⟩
  · intro hn r hr
    exact .perm hperm (promotes_of_foldlM h' (fun v hv => hn v (hperm.mem_iff.mp hv)) hr)

/-- An integer that may be changed, a float and a wide integer, and a struct beside them. -/
theorem foldlM_dominant_orderless_mixed :
    let a := (ofPrimitive .u32).withFlags { mutable := true }
    let b := ofPrimitive .f32
    let c := ofPrimitive .i64
    let s := named "P" .plain
    (∀ u ∈ [a, b, c], u.Operand) ∧ [c, a, b].Perm [a, b, c] ∧
      (∃ r, [a, b].foldlM dominant c = .ok r ∧ r.kind? = some .f64 ∧ Promotes [a, b, c] r) ∧
      (∀ u ∈ [a, s], u.Operand) ∧ [s, a].Perm [a, s] ∧ ¬ (∃ r, [a].foldlM dominant s = .ok r) := by
  intro a b c s
  have ha : a.Operand := .primitive (k := .u32) ⟨rfl, rfl, rfl⟩
  have hb : b.Operand := .primitive (ofKind_ofPrimitive _)
  have hc : c.Operand := .primitive (ofKind_ofPrimitive _)
  have hs : s.Operand := .struct rfl rfl
  have numbers : ∀ u ∈ [a, b, c], u.Operand := by simp [ha, hb, hc]
  have mixture : ∀ u ∈ [a, s], u.Operand := by simp [ha, hs]
  have first : [c, a, b].Perm [a, b, c] := (List.perm_append_singleton c [a, b]).symm
  have second : [s, a].Perm [a, s] := .swap ..
  refine ⟨numbers, first, ⟨_, rfl, rfl, ?_⟩, mixture, second, ?_⟩
  · exact ((foldlM_dominant_orderless numbers).2 c [a, b] first).2 (by decide) _ rfl
  · rw [((foldlM_dominant_orderless mixture).2 s [a] second).1]
    rintro ⟨r, hr⟩
    cases hr

end Ty
end OnePass
