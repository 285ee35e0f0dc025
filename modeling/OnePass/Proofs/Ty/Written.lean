import OnePass.Ty.Promotion
import OnePass.Ty.Written

/-!
Types by the names in them, and types as they are written. A written type has its marks on the outside
alone: what `[]` is put to has none, and neither `nil` nor the type of an empty array can be written.
-/

namespace OnePass

/-- Marks that may be written with a type: `*` or `&` in front, `?` behind. -/
structure Flags.Marks (f : Flags) : Prop where
  single : ¬(f.pointer = true ∧ f.reference = true)
  mutable : f.mutable = false
  global : f.global = false
  variadic : f.variadic = false

theorem Flags.Marks.plain : Flags.plain.Marks := ⟨by decide, rfl, rfl, rfl⟩

namespace Ty

variable {N : String → Prop}

@[simp] theorem flags_setFlags (t : Ty) (f : Flags) : (t.setFlags f).flags = f := by
  cases t <;> rfl

theorem setFlags_of_flags {t : Ty} {f : Flags} (h : t.flags = f) : t.setFlags f = t := by
  subst h
  cases t <;> rfl

theorem isMutable_withFlags (t : Ty) (f : Flags) : (t.withFlags f).isMutable = (t.isMutable || f.mutable) := by
  rw [isMutable, withFlags, flags_setFlags]
  rfl

/-- A value has no binding. -/
theorem isMutable_rvalue (t : Ty) : t.rvalue.isMutable = false := by
  rw [isMutable, rvalue, withoutFlags, flags_setFlags]
  exact Bool.and_false _

/-! ### Names in a type -/

mutual

/-- All names in a type have a property. -/
def Mentions (N : String → Prop) : Ty → Prop
  | primitive .. => True
  | named n _ => N n
  | array e _ _ => e.Mentions N
  | function ps r _ => MentionsAll N ps ∧ r.Mentions N

def MentionsAll (N : String → Prop) : List Ty → Prop
  | [] => True
  | t :: ts => t.Mentions N ∧ MentionsAll N ts

end

mutual

def decideMentions (N : String → Prop) [DecidablePred N] : (t : Ty) → Decidable (t.Mentions N)
  | primitive .. => isTrue trivial
  | named n _ => inferInstanceAs (Decidable (N n))
  | array e _ _ => e.decideMentions N
  | function ps r _ => @instDecidableAnd _ _ (decideMentionsAll N ps) (r.decideMentions N)

def decideMentionsAll (N : String → Prop) [DecidablePred N] : (ts : List Ty) → Decidable (MentionsAll N ts)
  | [] => isTrue trivial
  | t :: ts => @instDecidableAnd _ _ (t.decideMentions N) (decideMentionsAll N ts)

end

instance [DecidablePred N] : DecidablePred (Mentions N) := decideMentions N

theorem mentionsAll_iff {ts : List Ty} : MentionsAll N ts ↔ ∀ t ∈ ts, t.Mentions N := by
  induction ts with
  | nil => simp [MentionsAll]
  | cons t ts ih => simp [MentionsAll, ih]

mutual

theorem mentions_of_forall (h : ∀ n, N n) : (t : Ty) → t.Mentions N
  | primitive .. => trivial
  | named n _ => h n
  | array e _ _ => mentions_of_forall h e
  | function ps r _ => ⟨mentionsAll_of_forall h ps, mentions_of_forall h r⟩

theorem mentionsAll_of_forall (h : ∀ n, N n) : (ts : List Ty) → MentionsAll N ts
  | [] => trivial
  | t :: ts => ⟨mentions_of_forall h t, mentionsAll_of_forall h ts⟩

end

@[simp] theorem mentions_setFlags {t : Ty} {f : Flags} : (t.setFlags f).Mentions N ↔ t.Mentions N := by
  cases t <;> simp only [setFlags, Mentions]

theorem mentions_ofPrimitive (p : Primitive) : (ofPrimitive p).Mentions N := by
  simp only [ofPrimitive, Mentions]

/-! ### Widths -/

mutual

/-- Every built-in type is noted with the width that it has. -/
def Sized : Ty → Prop
  | primitive k width _ => width = k.width
  | named .. => True
  | array e _ _ => e.Sized
  | function ps r _ => SizedAll ps ∧ r.Sized

def SizedAll : List Ty → Prop
  | [] => True
  | t :: ts => t.Sized ∧ SizedAll ts

end

theorem sizedAll_iff {ts : List Ty} : SizedAll ts ↔ ∀ t ∈ ts, t.Sized := by
  induction ts with
  | nil => simp [SizedAll]
  | cons t ts ih => simp [SizedAll, ih]

/-! ### Properties of the parts -/

/-- Built-in types have the property, and any other type has it if its parts do. Marks do not matter. -/
structure Hereditary (P : Ty → Prop) : Prop where
  ofPrimitive (k : Primitive) : P (.ofPrimitive k)
  setFlags {t : Ty} {f : Flags} : P (t.setFlags f) ↔ P t
  array {e : Ty} {l : Nat} {f : Flags} : P (.array e l f) ↔ P e
  function {ps : List Ty} {r : Ty} {f : Flags} : P (.function ps r f) ↔ (∀ p ∈ ps, P p) ∧ P r

theorem hereditary_mentions : Hereditary (Mentions N) where
  ofPrimitive := mentions_ofPrimitive
  setFlags := mentions_setFlags
  array := by simp only [Mentions, implies_true]
  function := by simp only [Mentions, mentionsAll_iff, implies_true]

theorem hereditary_sized : Hereditary Sized where
  ofPrimitive _ := by simp only [Ty.ofPrimitive, Sized]
  setFlags {t _} := by cases t <;> simp only [Ty.setFlags, Sized]
  array := by simp only [Sized, implies_true]
  function := by simp only [Sized, sizedAll_iff, implies_true]

namespace Hereditary

variable {P : Ty → Prop} (hP : Hereditary P)

include hP

theorem element? {t e : Ty} (h : P t) (he : t.element? = some e) : P e := by
  unfold Ty.element? at he
  split at he
  · obtain rfl := Option.some.inj he
    exact hP.array.mp h
  · split at he
    · obtain rfl := Option.some.inj he
      exact hP.setFlags.mpr h
    · split at he
      · obtain rfl := Option.some.inj he
        exact hP.ofPrimitive _
      · cases he

theorem dominantPrimitive {a b t : Ty} {p q : Primitive} (ha : P a) (hb : P b)
    (ht : a.dominantPrimitive b p q = .ok t) : P t := by
  unfold Ty.dominantPrimitive at ht
  split at ht
  · obtain rfl := Except.ok.inj ht
    split
    · exact hP.setFlags.mpr hb
    · exact hP.setFlags.mpr ha
  · split at ht
    · obtain rfl := Except.ok.inj ht
      exact hP.ofPrimitive _
    · split at ht
      · obtain rfl := Except.ok.inj ht
        exact hP.setFlags.mpr ha
      · cases ht

theorem dominant {a b t : Ty} (ha : P a) (hb : P b) (ht : a.dominant b = .ok t) : P t := by
  unfold Ty.dominant at ht
  split at ht
  · obtain rfl := Except.ok.inj ht
    exact hP.setFlags.mpr ha
  · split at ht
    · obtain rfl := Except.ok.inj ht
      exact hP.setFlags.mpr hb
    · split at ht
      · cases ht
      · cases ht
      · split at ht
        · obtain rfl := Except.ok.inj ht
          exact hP.setFlags.mpr ha
        · cases ht
      · exact hP.dominantPrimitive ha hb ht
      · cases ht

end Hereditary

/-! ### Written types -/

mutual

/-- A type that may be written, the marks on its outside left open. -/
def Spelt (N : String → Prop) : Ty → Prop
  | primitive k width _ => k ≠ .nil ∧ k ≠ .unknown ∧ width = k.width
  | named n _ => N n
  | array e _ _ => e.flags = .plain ∧ e.Spelt N
  | function ps r _ => WrittenAll N ps ∧ r.flags.Marks ∧ r.Spelt N

def WrittenAll (N : String → Prop) : List Ty → Prop
  | [] => True
  | t :: ts => (t.flags.Marks ∧ t.Spelt N) ∧ WrittenAll N ts

end

/-- A type that may be written. -/
def Written (N : String → Prop) (t : Ty) : Prop := t.flags.Marks ∧ t.Spelt N

theorem writtenAll_iff {ts : List Ty} : WrittenAll N ts ↔ ∀ t ∈ ts, t.Written N := by
  induction ts with
  | nil => simp [WrittenAll]
  | cons t ts ih => simp [WrittenAll, Written, ih]

@[simp] theorem spelt_setFlags {t : Ty} {f : Flags} : (t.setFlags f).Spelt N ↔ t.Spelt N := by
  cases t <;> simp only [setFlags, Spelt]

mutual

theorem Hereditary.spelt {P : Ty → Prop} (hP : Hereditary P) (hnamed : ∀ n f, N n → P (.named n f)) {t : Ty}
    (h : t.Spelt N) : P t := by
  cases t with
  | primitive k width f =>
      obtain rfl := h.2.2
      exact (hP.setFlags (f := f)).mpr (hP.ofPrimitive k)
  | named => exact hnamed _ _ h
  | array => exact hP.array.mpr (hP.spelt hnamed h.2)
  | function => exact hP.function.mpr ⟨hP.writtenAll hnamed h.1, hP.spelt hnamed h.2.2⟩

theorem Hereditary.writtenAll {P : Ty → Prop} (hP : Hereditary P) (hnamed : ∀ n f, N n → P (.named n f))
    {ts : List Ty} (h : WrittenAll N ts) : ∀ t ∈ ts, P t := by
  cases ts with
  | nil => exact nofun
  | cons => exact List.forall_mem_cons.mpr ⟨hP.spelt hnamed h.1.2, hP.writtenAll hnamed h.2⟩

end

theorem Written.mentions {t : Ty} (h : t.Written N) : t.Mentions N :=
  hereditary_mentions.spelt (fun _ _ hn => hn) h.2

theorem mentionsAll_of_writtenAll {ts : List Ty} (h : WrittenAll N ts) : MentionsAll N ts :=
  mentionsAll_iff.mpr (hereditary_mentions.writtenAll (fun _ _ hn => hn) h)

theorem Written.sized {t : Ty} (h : t.Written N) : t.Sized :=
  hereditary_sized.spelt (fun _ _ _ => trivial) h.2

mutual

theorem Spelt.imp {M : String → Prop} (himp : ∀ n, N n → M n) {t : Ty} (h : t.Spelt N) : t.Spelt M := by
  cases t with
  | primitive => exact h
  | named => exact himp _ h
  | array => exact ⟨h.1, h.2.imp himp⟩
  | function => exact ⟨writtenAll_imp himp h.1, h.2.1, h.2.2.imp himp⟩

theorem writtenAll_imp {M : String → Prop} (himp : ∀ n, N n → M n) {ts : List Ty} (h : WrittenAll N ts) :
    WrittenAll M ts := by
  cases ts with
  | nil => trivial
  | cons => exact ⟨⟨h.1.1, h.1.2.imp himp⟩, writtenAll_imp himp h.2⟩

end

mutual

/-- A type may be written with the names that are in it. -/
theorem Spelt.of_mentions {M : String → Prop} {t : Ty} (h : t.Spelt N) (hm : t.Mentions M) : t.Spelt M := by
  cases t with
  | primitive => exact h
  | named => exact hm
  | array => exact ⟨h.1, h.2.of_mentions hm⟩
  | function => exact ⟨writtenAll_of_mentionsAll h.1 hm.1, h.2.1, h.2.2.of_mentions hm.2⟩

theorem writtenAll_of_mentionsAll {M : String → Prop} {ts : List Ty} (h : WrittenAll N ts) (hm : MentionsAll M ts) :
    WrittenAll M ts := by
  cases ts with
  | nil => trivial
  | cons => exact ⟨⟨h.1.1, h.1.2.of_mentions hm.1⟩, writtenAll_of_mentionsAll h.2 hm.2⟩

end

theorem Written.imp {M : String → Prop} (himp : ∀ n, N n → M n) {t : Ty} (h : t.Written N) : t.Written M :=
  ⟨h.1, h.2.imp himp⟩

theorem Written.isMutable_eq {t : Ty} (h : t.Written N) : t.isMutable = false := h.1.mutable

end Ty
end OnePass
