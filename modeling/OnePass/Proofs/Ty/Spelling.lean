import OnePass.Name
import OnePass.Proofs.Token.Words
import OnePass.Proofs.Ty.Shape

/-!
What the text of a type tells of it. The shape of a type is the shape of its text, so types with one text
have one shape, and a type can be read back from it: bare, without marks and lengths. What is read back is
the type itself unless the text misleads, which it does in two places. The element type of an empty array is
called `unknown`, and a struct may be called so too. And a function that is the element of an array has
parentheses only if it is plain or marked; if it is the type of a variable, say, it has none, and the
brackets seem to belong to its result.
-/

namespace OnePass

namespace Shape

variable (m x : List Char)

/-- Puts marks in front. -/
def mark : Shape → Shape
  | word marks name suffixes => word (m ++ marks) name suffixes
  | arrow marks params result => arrow (m ++ marks) params result
  | group marks inner suffixes => group (m ++ marks) inner suffixes

/-- Puts suffixes behind, which are those of the result if there is an arrow. -/
def suffix : Shape → Shape
  | word marks name suffixes => word marks name (suffixes ++ x)
  | arrow marks params result => arrow marks params result.suffix
  | group marks inner suffixes => group marks inner (suffixes ++ x)

theorem chars_mark (s : Shape) : (s.mark m).chars = m ++ s.chars := by
  cases s <;> simp [mark, chars]

theorem chars_suffix : (s : Shape) → (s.suffix x).chars = s.chars ++ x
  | word .. => by simp [suffix, chars]
  | arrow _ _ result => by simp [suffix, chars, chars_suffix result]
  | group .. => by simp [suffix, chars]

theorem marks_mark (s : Shape) : (s.mark m).marks = m ++ s.marks := by
  cases s <;> rfl

variable {m x}

theorem Proper.mark {s : Shape} (h : s.Proper) (hm : ∀ c ∈ m, isMark c = true) : (s.mark m).Proper := by
  have both {marks : List Char} (h : ∀ c ∈ marks, isMark c = true) : ∀ c ∈ m ++ marks, isMark c = true :=
    fun c hc => (List.mem_append.mp hc).elim (hm c) (h c)
  cases s <;> exact ⟨both h.1, h.2⟩

theorem Proper.suffix (hx : ∀ c ∈ x, isSuffix c = true) : {s : Shape} → s.Proper → (s.suffix x).Proper
  | word .., ⟨hm, hn, hs⟩ => ⟨hm, hn, fun c hc => (List.mem_append.mp hc).elim (hs c) (hx c)⟩
  | arrow .., ⟨hm, hp, hr⟩ => ⟨hm, hp, Proper.suffix hx hr⟩
  | group .., ⟨hm, hi, hs⟩ => ⟨hm, hi, fun c hc => (List.mem_append.mp hc).elim (hs c) (hx c)⟩

end Shape

theorem Flags.isMark_opening (f : Flags) : ∀ c ∈ f.opening.toList, isMark c = true := by
  unfold Flags.opening
  rw [← List.all_eq_true]
  split <;> split <;> split <;> decide

theorem Flags.isSuffix_closing (f : Flags) : ∀ c ∈ f.closing.toList, isSuffix c = true := by
  unfold Flags.closing
  rw [← List.all_eq_true]
  split <;> decide

/-- Is a function in parentheses because of its marks? -/
def Flags.enclose (f : Flags) : Bool := f.pointer || f.reference || f.optional

namespace Ty

/-! ### The shape of a type -/

mutual

def shape : Ty → Shape
  | primitive k _ f => .word f.opening.toList k.name.toList f.closing.toList
  | named n f => .word f.opening.toList n.toList f.closing.toList
  | array e _ f =>
    let element := if e.isFunction && e.flags == .plain then .group [] e.shape [] else e.shape
    ((element.suffix ['[', ']']).suffix f.closing.toList).mark f.opening.toList
  | function ps r f =>
    if f.enclose then .group f.opening.toList (.arrow [] (shapes ps) r.shape) f.closing.toList
    else .arrow f.opening.toList (shapes ps) r.shape

def shapes : List Ty → List Shape
  | [] => []
  | t :: ts => t.shape :: shapes ts

end

theorem shapes_eq_map (ts : List Ty) : shapes ts = ts.map shape := by
  induction ts with
  | nil => rfl
  | cons t ts ih => rw [shapes, List.map_cons, ih]

/-- A pointer is marked as one. -/
theorem mem_marks_shape (t : Ty) (h : t.isPointer = true) : '*' ∈ t.shape.marks := by
  have star (f : Flags) (hf : f.pointer = true) : '*' ∈ f.opening.toList := by
    simp [Flags.opening, hf]
  cases t with
  | primitive k w f | named n f => exact star f h
  | array e l f =>
      rw [shape, Shape.marks_mark]
      exact List.mem_append_left _ (star f h)
  | function ps r f =>
      rw [shape]
      split <;> exact star f h

mutual

theorem toList_text (t : Ty) : t.text.toList = t.shape.chars := by
  unfold text
  match t with
  | primitive k w f => simp [shape, Shape.chars, flags]
  | named n f => simp [shape, Shape.chars, flags]
  | array e l f =>
      have element := toList_text e
      have hf : (array e l f).flags = f := rfl
      rw [hf, shape, Shape.chars_mark, Shape.chars_suffix, Shape.chars_suffix]
      by_cases hplain : (e.isFunction && e.flags == .plain) = true
      · simp [hplain, element, Shape.chars]
      · simp [hplain, element]
  | function ps r f =>
      have params := toList_join ", " [' '] rfl ps
      have result := toList_text r
      have body : ("(" ++ join ", " (texts ps) ++ ") -> " ++ r.text).toList =
          (Shape.arrow [] (shapes ps) r.shape).chars := by
        simp [Shape.chars, ← params, result]
      have hf : (function ps r f).flags = f := rfl
      rw [hf, shape]
      by_cases henclose : f.enclose = true
      · have marked : (f.pointer || f.reference || f.optional) = true := henclose
        dsimp only
        rw [if_pos marked, if_pos henclose]
        simp only [String.toList_append, body, Shape.chars]
        simp
      · have unmarked : ¬(f.pointer || f.reference || f.optional) = true := henclose
        have closing : f.closing = "" := by simp_all [Flags.closing]
        dsimp only
        rw [if_neg unmarked, if_neg henclose, closing]
        simp only [String.toList_append, body, Shape.chars]
        simp

theorem toList_join (separator : String) (gap : List Char) (hs : separator.toList = ',' :: gap)
    (ts : List Ty) : (join separator (texts ts)).toList ++ [')'] = Shape.paramChars gap (shapes ts) := by
  match ts with
  | [] => simp [texts, join, shapes, Shape.paramChars]
  | [t] => simp [texts, join, shapes, Shape.paramChars, Shape.moreChars, toList_text t]
  | t :: u :: us =>
      have more := toList_join separator gap hs (u :: us)
      simp only [shapes, Shape.paramChars] at more
      simp only [texts, join, String.toList_append, hs, toList_text t, shapes, Shape.paramChars,
        Shape.moreChars, ← more, List.append_assoc, List.cons_append]

end

theorem name_proper (k : Primitive) :
    k.name.toList ≠ [] ∧ ∀ c ∈ k.name.toList, Token.Scan.isWordChar c = true := by
  rw [← List.all_eq_true]
  cases k <;> decide

mutual

theorem shape_proper (t : Ty) (h : t.Mentions (Named Token.Names)) : t.shape.Proper := by
  match t with
  | primitive k w f => exact ⟨f.isMark_opening, name_proper k, f.isSuffix_closing⟩
  | named n f => exact ⟨f.isMark_opening, ⟨Named.nonempty h, Named.chars h⟩, f.isSuffix_closing⟩
  | array e l f =>
      have element := shape_proper e h
      refine .mark (.suffix f.isSuffix_closing (.suffix (List.all_eq_true.mp rfl) ?_)) f.isMark_opening
      split
      · exact ⟨by simp, element, by simp⟩
      · exact element
  | function ps r f =>
      have params := shapes_proper ps h.1
      have result := shape_proper r h.2
      unfold shape
      split
      · exact ⟨f.isMark_opening, ⟨by simp, params, result⟩, f.isSuffix_closing⟩
      · exact ⟨f.isMark_opening, params, result⟩

theorem shapes_proper (ts : List Ty) (h : MentionsAll (Named Token.Names) ts) :
    Shape.ProperAll (shapes ts) := by
  match ts with
  | [] => trivial
  | t :: ts => exact ⟨shape_proper t h.1, shapes_proper ts h.2⟩

end

/-- Lists of types that are spelt alike have the same shapes. -/
theorem shapes_eq_of_join {ts us : List Ty} (ht : MentionsAll (Named Token.Names) ts)
    (hu : MentionsAll (Named Token.Names) us)
    (h : (join "," (texts ts)).toList ++ [')'] = (join "," (texts us)).toList ++ [')']) :
    shapes ts = shapes us := by
  rw [toList_join "," [] rfl, toList_join "," [] rfl] at h
  exact (Shape.paramChars_append_inj [] _ _ (shapes_proper ts ht) (shapes_proper us hu)
    (congrArg (· ++ []) h)).1

end Ty

/-! ### Reading a type back -/

namespace Shape

/-- The built-in types but the one that is not spelt in any program. -/
def builtIn : List Primitive :=
  [.i8, .i16, .i32, .i64, .u8, .u16, .u32, .u64, .f32, .f64, .bool, .char, .string, .void, .nil]

/-- The type of a name. -/
def base (name : List Char) : Ty :=
  match builtIn.find? (·.name.toList == name) with
  | some k => .ofPrimitive k
  | none => .named (.ofList name) .plain

/-- The arrays that brackets behind a type make of it. -/
def bracketed (suffixes : List Char) (t : Ty) : Ty :=
  suffixes.foldl (fun t c => if c = '[' then .array t 0 .plain else t) t

mutual

/-- The type that is read from a text, without marks and lengths. -/
def type : Shape → Ty
  | word _ name suffixes => bracketed suffixes (base name)
  | arrow _ params result => .function (types params) result.type .plain
  | group _ inner suffixes => bracketed suffixes inner.type

def types : List Shape → List Ty
  | [] => []
  | s :: ss => s.type :: types ss

end

theorem type_mark (m : List Char) (s : Shape) : (s.mark m).type = s.type := by
  cases s <;> simp only [mark, type]

def isArrow : Shape → Bool
  | arrow .. => true
  | _ => false

theorem isArrow_mark (m : List Char) (s : Shape) : (s.mark m).isArrow = s.isArrow := by
  cases s <;> rfl

theorem isArrow_suffix (x : List Char) (s : Shape) : (s.suffix x).isArrow = s.isArrow := by
  cases s <;> rfl

/-- Brackets make an array of a type unless its text ends with that of a result. -/
theorem type_suffix (x : List Char) {s : Shape} (h : s.isArrow = false) :
    (s.suffix x).type = bracketed x s.type := by
  cases s with
  | word | group => simp only [suffix, type, bracketed, List.foldl_append]
  | arrow => cases h

theorem type_of_isArrow {s : Shape} (h : s.isArrow = true) : ∃ ps r f, s.type = .function ps r f := by
  cases s with
  | word | group => cases h
  | arrow => exact ⟨_, _, _, by rw [type]⟩

end Shape
end OnePass
