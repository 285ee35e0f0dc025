import OnePass.Proofs.Ty.Agreement
import OnePass.Proofs.Ty.Spelling

/-!
Types whose text does not mislead. Of two types that are spelt alike, one as a parameter has it and one as
an argument has it, the first takes the second if and only if the text of the second is faithful.
-/

namespace OnePass
namespace Ty

/-- With brackets behind it, a function has to be in parentheses. -/
def Enclosed (t : Ty) : Prop := t.isFunction = true → t.flags = .plain ∨ t.flags.enclose = true

mutual

/-- The type is the one that is read from its text. -/
def Faithful : Ty → Prop
  | primitive k _ _ => k ≠ .unknown
  | named .. => True
  | array e _ _ => e.Faithful ∧ e.Enclosed
  | function ps r _ => FaithfulAll ps ∧ r.Faithful

def FaithfulAll : List Ty → Prop
  | [] => True
  | t :: ts => t.Faithful ∧ FaithfulAll ts

end

mutual

/-- A type without its marks and lengths, and with the usual widths. -/
def bare : Ty → Ty
  | primitive k _ _ => ofPrimitive k
  | named n _ => named n .plain
  | array e _ _ => array e.bare 0 .plain
  | function ps r _ => function (bares ps) r.bare .plain

def bares : List Ty → List Ty
  | [] => []
  | t :: ts => t.bare :: bares ts

end

theorem kind?_bare (t : Ty) : t.bare.kind? = t.kind? := by
  cases t <;> simp only [bare, ofPrimitive, kind?]

theorem bare_setFlags {t : Ty} {f : Flags} : (t.setFlags f).bare = t.bare := by
  cases t <;> simp only [setFlags, bare]

/-! ### Arrays -/

/-- The shape of a type in front of brackets. -/
def elementShape (e : Ty) : Shape :=
  if e.isFunction && e.flags == .plain then .group [] e.shape [] else e.shape

theorem shape_array (e : Ty) (l : Nat) (f : Flags) :
    (array e l f).shape =
      ((e.elementShape.suffix ['[', ']']).suffix f.closing.toList).mark f.opening.toList := by
  rw [shape]
  rfl

theorem type_elementShape (e : Ty) : e.elementShape.type = e.shape.type := by
  unfold elementShape
  split
  · simp only [Shape.type, Shape.bracketed, List.foldl_nil]
  · rfl

theorem bracketed_closing (f : Flags) (t : Ty) : Shape.bracketed f.closing.toList t = t := by
  unfold Flags.closing
  split <;> rfl

theorem isArrow_array (e : Ty) (l : Nat) (f : Flags) :
    (array e l f).shape.isArrow = e.elementShape.isArrow := by
  rw [shape_array, Shape.isArrow_mark, Shape.isArrow_suffix, Shape.isArrow_suffix]

theorem type_array {e : Ty} (h : e.elementShape.isArrow = false) (l : Nat) (f : Flags) :
    (array e l f).shape.type = array e.shape.type 0 .plain := by
  rw [shape_array, Shape.type_mark, Shape.type_suffix _ (by rw [Shape.isArrow_suffix, h]),
    Shape.type_suffix _ h, bracketed_closing, type_elementShape]
  rfl

theorem isArrow_elementShape {e : Ty} (h : e.Faithful) (henclosed : e.Enclosed) :
    e.elementShape.isArrow = false := by
  match e with
  | primitive .. | named .. => rfl
  | array e l f =>
      rw [elementShape, if_neg (by simp [isFunction]), isArrow_array]
      exact isArrow_elementShape h.1 h.2
  | function ps r f =>
      unfold elementShape
      split
      · rfl
      · rename_i hplain
        have hf : f ≠ .plain := fun hf => hplain (by simp [isFunction, flags, hf])
        have henclose : f.enclose = true := (henclosed rfl).resolve_left hf
        rw [shape, if_pos henclose]
        rfl

theorem enclosed_of_isArrow {e : Ty} (h : e.elementShape.isArrow = false) : e.Enclosed := by
  intro hfunction
  cases e with
  | primitive | named | array => cases hfunction
  | function ps r f =>
      by_contra hbad
      obtain ⟨hplain, henclose⟩ := not_or.mp hbad
      have unwrapped : ¬((function ps r f).isFunction && (function ps r f).flags == .plain) = true := by
        simpa [isFunction] using hplain
      have unmarked : ¬f.enclose = true := henclose
      rw [elementShape, if_neg unwrapped, shape, if_neg unmarked] at h
      cases h

/-- If an array is read back, it is one of what its element is read back as. -/
theorem element_of_bare {q e : Ty} {l m : Nat} {f g : Flags}
    (h : (array q l f).bare = (array e m g).shape.type) :
    e.elementShape.isArrow = false ∧ q.bare = e.shape.type := by
  cases harrow : e.elementShape.isArrow with
  | true =>
      rw [← isArrow_array e m g] at harrow
      obtain ⟨_, _, _, htype⟩ := Shape.type_of_isArrow harrow
      rw [htype, bare] at h
      cases h
  | false =>
      rw [type_array harrow, bare] at h
      exact ⟨rfl, (array.inj h).1⟩

/-! ### Reading back -/

theorem base_name {k : Primitive} (h : k ≠ .unknown) : Shape.base k.name.toList = ofPrimitive k := by
  cases k <;> first | rfl | exact absurd rfl h

theorem base_named {n : String} (h : Named Token.Names n) :
    Shape.base n.toList = named n .plain := by
  have free : Shape.builtIn.find? (·.name.toList == n.toList) = none := by
    rw [List.find?_eq_none]
    intro k hk he
    have known : k ≠ .unknown := by
      rintro rfl
      revert hk
      decide
    exact h.ne_name known (String.toList_inj.mp (by simpa using he)).symm
  simp only [Shape.base, free, String.ofList_toList]

theorem type_function (ps : List Ty) (r : Ty) (f : Flags) :
    (function ps r f).shape.type = function (Shape.types (shapes ps)) r.shape.type .plain := by
  rw [shape]
  split
  · rw [Shape.type, bracketed_closing, Shape.type]
  · rw [Shape.type]

mutual

/-- A faithful type is read back from its shape. -/
theorem type_shape (t : Ty) (hm : t.Mentions (Named Token.Names)) (h : t.Faithful) :
    t.shape.type = t.bare := by
  match t with
  | primitive k w f => rw [shape, Shape.type, bracketed_closing, base_name h, bare]
  | named n f => rw [shape, Shape.type, bracketed_closing, base_named hm, bare]
  | array e l f => rw [type_array (isArrow_elementShape h.1 h.2), type_shape e hm h.1, bare]
  | function ps r f => rw [type_function, types_shapes ps hm.1 h.1, type_shape r hm.2 h.2, bare]

theorem types_shapes (ts : List Ty) (hm : MentionsAll (Named Token.Names) ts) (h : FaithfulAll ts) :
    Shape.types (shapes ts) = bares ts := by
  match ts with
  | [] => simp only [shapes, Shape.types, bares]
  | t :: ts =>
      rw [shapes, Shape.types, bares, type_shape t hm.1 h.1, types_shapes ts hm.2 h.2]

end

/-! ### Written types -/

mutual

theorem faithful_of_spelt {N : String → Prop} (t : Ty) (h : t.Spelt N) : t.Faithful := by
  match t with
  | primitive .. => exact h.2.1
  | named .. => trivial
  | array e _ _ => exact ⟨faithful_of_spelt e h.2, fun _ => .inl h.1⟩
  | function ps r _ => exact ⟨faithfulAll_of_written ps h.1, faithful_of_spelt r h.2.2⟩

theorem faithfulAll_of_written {N : String → Prop} (ts : List Ty) (h : WrittenAll N ts) :
    FaithfulAll ts := by
  match ts with
  | [] => trivial
  | t :: ts => exact ⟨faithful_of_spelt t h.1.2, faithfulAll_of_written ts h.2⟩

end

theorem isNil_of_spelt {N : String → Prop} {t : Ty} (h : t.Spelt N) : t.isNil = false := by
  cases t with
  | primitive k => simpa [isNil, isKind, kind?] using h.1
  | named | array | function => rfl

/-! ### Agreement -/

mutual

theorem agrees_of_bare (t u : Ty) (h : t.bare = u.bare) : t.agrees u = true := by
  cases t <;> cases u <;> simp only [bare, ofPrimitive, reduceCtorEq, primitive.injEq, named.injEq,
    array.injEq, function.injEq, and_true] at h
  case primitive.primitive => simp [agrees, h]
  case named.named => simp [agrees, h]
  case array.array e _ _ e' _ _ => simp [agrees, agrees_of_bare e e' h]
  case function.function ps r _ ps' r' _ =>
    simp [agrees, agreesAll_of_bares ps ps' h.1, agrees_of_bare r r' h.2]

theorem agreesAll_of_bares (ts us : List Ty) (h : bares ts = bares us) : agreesAll ts us = true := by
  cases ts <;> cases us <;> simp only [bares, reduceCtorEq, List.cons.injEq] at h
  case nil.nil => simp [agreesAll]
  case cons.cons t ts u us => simp [agreesAll, agrees_of_bare t u h.1, agreesAll_of_bares ts us h.2]

end

theorem nilAgrees_eq_false {t u : Ty} (ht : t.isNil = false) (hu : u.isNil = false) :
    nilAgrees t u = false := by
  simp [nilAgrees, ht, hu]

theorem isNil_eq_false {u : Ty} (h : u.kind? = none) : u.isNil = false := by
  simp [isNil, isKind, h]

mutual

theorem faithful_of_agrees {N : String → Prop} (p t : Ty) (hp : p.Spelt N)
    (h : p.bare = t.shape.type) (ha : p.agrees t = true) : t.Faithful := by
  have hnil := isNil_of_spelt hp
  cases t with
  | named => trivial
  | primitive l =>
      rintro rfl
      unfold agrees at ha
      rw [nilAgrees_eq_false hnil rfl] at ha
      cases p <;> simp at ha
      exact hp.2.1 ha
  | array e l f =>
      unfold agrees at ha
      rw [nilAgrees_eq_false hnil (isNil_eq_false rfl)] at ha
      cases p <;> simp only [Bool.or_false, reduceCtorEq] at ha
      rename_i q _ _
      obtain ⟨harrow, hq⟩ := element_of_bare h
      exact ⟨faithful_of_agrees q e hp.2 hq ha, enclosed_of_isArrow harrow⟩
  | function ps' r' f' =>
      unfold agrees at ha
      rw [nilAgrees_eq_false hnil (isNil_eq_false rfl)] at ha
      cases p <;> simp only [Bool.or_false, reduceCtorEq, Bool.and_eq_true] at ha
      rename_i ps r f
      rw [type_function, bare] at h
      obtain ⟨hps, hr, _⟩ := function.inj h
      exact ⟨faithfulAll_of_agreesAll ps ps' hp.1 hps ha.1, faithful_of_agrees r r' hp.2.2 hr ha.2⟩

theorem faithfulAll_of_agreesAll {N : String → Prop} (ps ts : List Ty) (hp : WrittenAll N ps)
    (h : bares ps = Shape.types (shapes ts)) (ha : agreesAll ps ts = true) : FaithfulAll ts := by
  match ps, ts with
  | _, [] => trivial
  | [], _ :: _ => simp [agreesAll] at ha
  | p :: ps, t :: ts =>
      simp only [agreesAll, Bool.and_eq_true] at ha
      simp only [bares, shapes, Shape.types, List.cons.injEq] at h
      exact ⟨faithful_of_agrees p t hp.1.2 h.1 ha.1, faithfulAll_of_agreesAll ps ts hp.2 h.2 ha.2⟩

end

theorem faithful_of_widens {p t : Ty} (h : p.widens t = true) : t.Faithful := by
  cases t with
  | primitive l =>
      rintro rfl
      cases p <;> simp [widens, kind?, Primitive.isInteger, Primitive.isFloat] at h
  | named => trivial
  | array | function => cases p <;> simp [widens, kind?] at h

/-- A type that is written takes a type which reads like it if and only if that one is faithful. -/
theorem accepts_iff_faithful {N : String → Prop} {p t : Ty} (hp : p.Spelt N)
    (ht : t.Mentions (Named Token.Names)) (h : p.bare = t.shape.type) :
    p.accepts t = true ↔ t.Faithful := by
  constructor
  · intro ha
    rw [accepts, Bool.or_eq_true] at ha
    rcases ha with ha | ha
    · exact faithful_of_agrees p t hp h ha
    · exact faithful_of_widens ha
  · intro hf
    rw [type_shape t ht hf] at h
    rw [accepts, agrees_of_bare p t h, Bool.true_or]

end Ty
end OnePass
