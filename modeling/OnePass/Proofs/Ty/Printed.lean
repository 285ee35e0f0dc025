import OnePass.Proofs.Formula.Basic
import OnePass.Proofs.Token.Rendering
import OnePass.Proofs.Ty.Written

/-!
The tokens of a type's text. Marks, names, brackets and arrows are cut out of it one by one, since none of them goes
on with what the next begins with: where a mark stands in front, a word follows; behind a word there is never
another. That holds as long as no function type has marks or is put into an array, for then there are parentheses
around it that stand for nothing.
-/

namespace OnePass

open Token (Kind)

/-! ### Texts cut into tokens -/

/-- Scanning cuts `run` off a text, in tokens that look like `gs`, and goes on with what is behind it. -/
def Lexes (gs : List Glyph) (run rest : List Char) : Prop :=
  ∀ (source : Source) (offset : Nat), ∃ offset' ts, ts.map Token.glyph = gs ∧
    Token.Scan.tokens source 0 offset (run ++ rest) = (Token.Scan.tokens source 0 offset' rest).map (ts ++ ·)

namespace Lexes

open Token.Scan

variable {gs gs' : List Glyph} {run run' rest : List Char}

theorem nil : Lexes [] [] rest := by
  intro source offset
  refine ⟨offset, [], rfl, ?_⟩
  rw [List.nil_append]
  cases tokens source 0 offset rest <;> rfl

theorem append (h : Lexes gs run (run' ++ rest)) (h' : Lexes gs' run' rest) :
    Lexes (gs ++ gs') (run ++ run') rest := by
  intro source offset
  obtain ⟨offset₁, ts, rfl, hfirst⟩ := h source offset
  obtain ⟨offset₂, ts', rfl, hlater⟩ := h' source offset₁
  refine ⟨offset₂, ts ++ ts', List.map_append, ?_⟩
  rw [List.append_assoc, hfirst, hlater]
  cases tokens source 0 offset₂ rest with
  | error => rfl
  | ok later => exact congrArg Except.ok (List.append_assoc ts ts' later).symm

theorem blank : Lexes [] [' '] rest := by
  intro source offset
  refine ⟨offset + ' '.utf8Size, [], rfl, ?_⟩
  rw [List.singleton_append, tokens, if_pos (by decide)]
  cases tokens source 0 (offset + ' '.utf8Size) rest <;> rfl

theorem ofComes {kind : Kind} {lexeme : String} (h : Comes kind lexeme.toList run rest) :
    Lexes [⟨kind, lexeme⟩] run rest := by
  intro source offset
  refine ⟨offset + byteCount run, [⟨kind, lexeme, .ofLength offset (byteCount run) source.id⟩], rfl, ?_⟩
  rw [h.tokens, String.ofList_toList]
  rfl

theorem mark {kind : Kind} (h : (kind.text, kind) ∈ Kind.operators) (hrest : StopsOperator kind.text.toList rest) :
    Lexes [.mark kind] kind.text.toList rest :=
  ofComes (operator_comes h hrest)

/-- The marks of a type that begin no longer operator. -/
def alone : List Kind := [.leftParen, .rightParen, .leftBracket, .rightBracket, .comma, .arrow, .question]

theorem ofAlone (kind : Kind) (h : kind ∈ alone) : Lexes [.mark kind] kind.text.toList rest := by
  have single : ∀ kind ∈ alone, (kind.text, kind) ∈ Kind.operators ∧ kind.text.toList ≠ ['/'] ∧
      ∀ entry ∈ Kind.operators, kind.text.toList <+: entry.1.toList → entry.1.toList = kind.text.toList := by
    decide +kernel
  obtain ⟨known, noSlash, longest⟩ := single kind h
  refine mark known fun d _ => ⟨fun entry he hlonger => ?_, fun hslash => absurd hslash noSlash⟩
  have same := longest entry he ((List.prefix_append _ _).trans hlonger)
  rw [same] at hlonger
  exact absurd hlonger.length_le (by simp)

/-- A pointer or reference mark in front of a word. -/
theorem ofPrefix {kind : Kind} (h : kind ∈ [Kind.star, .ampersand]) (hrest : ∀ d ∈ rest.head?, isWordStart d = true) :
    Lexes [.mark kind] kind.text.toList rest := by
  have known : ∀ kind ∈ [Kind.star, .ampersand], (kind.text, kind) ∈ Kind.operators ∧ kind.text.toList ≠ ['/'] := by
    decide
  have noWord : ∀ entry ∈ Kind.operators, entry.1.toList.all (fun c => !isWordStart c) = true := by decide +kernel
  refine mark (known kind h).1 fun d hd => ⟨fun entry he hlonger => ?_, fun hslash => absurd hslash (known kind h).2⟩
  have free := List.all_eq_true.mp (noWord entry he) d (hlonger.subset (by simp))
  rw [hrest d hd] at free
  cases free

end Lexes

/-! ### Glyphs of a type -/

/-- A word that may name something and is cut out of a text as one: it does not begin with a digit. -/
structure IsIdentifier (n : String) : Prop extends IsWord n where
  start : ∀ c ∈ n.toList.head?, Token.Scan.isWordStart c = true

theorem IsIdentifier.comes {n : String} (h : IsIdentifier n) {rest : List Char} (hrest : Token.Scan.StopsWord rest) :
    Token.Scan.Comes .identifier n.toList n.toList rest := by
  obtain ⟨c, cs, hcs⟩ := List.exists_cons_of_ne_nil h.nonempty
  have chars := h.chars
  rw [hcs] at chars
  have later : ∀ d ∈ cs, Token.Scan.isWordChar d = true := fun d hd => chars d (List.mem_cons_of_mem _ hd)
  have comes := Token.Scan.word_comes (h.start c (by rw [hcs]; rfl)) later hrest
  rw [← hcs, String.ofList_toList, h.free] at comes
  exact comes

theorem IsIdentifier.lexes {n : String} (h : IsIdentifier n) {rest : List Char} (hrest : Token.Scan.StopsWord rest) :
    Lexes [⟨.identifier, n⟩] n.toList rest :=
  .ofComes (h.comes hrest)

namespace Flags

/-- The mark in front of a type. -/
def front (f : Flags) : List Glyph :=
  (if f.reference then [.mark .ampersand] else []) ++ if f.pointer then [.mark .star] else []

/-- The mark behind a type. -/
def back (f : Flags) : List Glyph := if f.optional then [.mark .question] else []

theorem lexes_front {f : Flags} {rest : List Char} (h : f.Marks)
    (hrest : f = .plain ∨ ∀ d ∈ rest.head?, Token.Scan.isWordStart d = true) :
    Lexes f.front f.opening.toList rest := by
  rcases hrest with rfl | hrest
  · exact .nil
  · obtain ⟨pointer, reference, mutable, optional, global, variadic⟩ := f
    obtain ⟨single, _, _, hv⟩ := h
    obtain rfl : variadic = false := hv
    cases pointer <;> cases reference
    · exact .nil
    · exact .ofPrefix (by decide) hrest
    · exact .ofPrefix (by decide) hrest
    · exact absurd ⟨rfl, rfl⟩ single

theorem lexes_back (f : Flags) (rest : List Char) : Lexes f.back f.closing.toList rest := by
  unfold back closing
  split
  · exact .ofAlone .question (by decide)
  · exact .nil

end Flags

namespace Ty

mutual

/-- The glyphs of a type, the marks on its outside left out. -/
def core : Ty → List Glyph
  | primitive k _ _ => [⟨.primitive, k.name⟩]
  | named n _ => [⟨.identifier, n⟩]
  | array e _ _ => e.core ++ [.mark .leftBracket, .mark .rightBracket]
  | function ps r _ =>
    .mark .leftParen :: (listed ps ++ .mark .rightParen :: .mark .arrow :: (r.flags.front ++ (r.core ++ r.flags.back)))

/-- The glyphs of types with commas between them. -/
def listed : List Ty → List Glyph
  | [] => []
  | [t] => t.flags.front ++ (t.core ++ t.flags.back)
  | t :: u :: ts => t.flags.front ++ (t.core ++ t.flags.back) ++ .mark .comma :: listed (u :: ts)

end

/-- The glyphs of a type. -/
def glyphs (t : Ty) : List Glyph := t.flags.front ++ (t.core ++ t.flags.back)

mutual

/-- No function type in a type has marks or is the element of an array. -/
def Bare : Ty → Prop
  | primitive .. | named .. => True
  | array e _ _ => e.isFunction = false ∧ e.Bare
  | function ps r f => f = .plain ∧ BareAll ps ∧ r.Bare

def BareAll : List Ty → Prop
  | [] => True
  | t :: ts => t.Bare ∧ BareAll ts

end

mutual

def decideBare : (t : Ty) → Decidable t.Bare
  | primitive .. | named .. => isTrue trivial
  | array e _ _ => @instDecidableAnd _ _ _ e.decideBare
  | function ps r _ => @instDecidableAnd _ _ _ (@instDecidableAnd _ _ (decideBareAll ps) r.decideBare)

def decideBareAll : (ts : List Ty) → Decidable (BareAll ts)
  | [] => isTrue trivial
  | t :: ts => @instDecidableAnd _ _ t.decideBare (decideBareAll ts)

end

instance : DecidablePred Bare := decideBare

/-! ### Texts of types -/

theorem text_primitive (k : Primitive) (w : Nat) : (primitive k w .plain).text = k.name := by
  simp [text, flags, Flags.opening, Flags.closing, Flags.plain]

theorem text_named (n : String) : (named n .plain).text = n := by
  simp [text, flags, Flags.opening, Flags.closing, Flags.plain]

theorem text_array {e : Ty} (l : Nat) (h : e.isFunction = false) : (array e l .plain).text = e.text ++ "[]" := by
  rw [text]
  simp [h, flags, Flags.opening, Flags.closing, Flags.plain]

theorem text_function (ps : List Ty) (r : Ty) :
    (function ps r .plain).text = "(" ++ join ", " (texts ps) ++ ") -> " ++ r.text := by
  rw [text]
  simp [flags, Flags.opening, Flags.closing, Flags.plain]

/-- The marks of a type are around the text of the type without them. -/
theorem Bare.text_eq {t : Ty} (h : t.Bare) :
    t.text = t.flags.opening ++ (t.setFlags .plain).text ++ t.flags.closing := by
  have none : Flags.plain.opening = "" ∧ Flags.plain.closing = "" := ⟨rfl, rfl⟩
  cases t with
  | function ps r f =>
      obtain rfl := h.1
      simp [flags, setFlags, none]
  | primitive | named | array => simp [text, flags, setFlags, none]

/-! ### Tokens of types -/

section Lexing

open Token.Scan

/-- The built-in types that can be written are known by the words that they are written with. -/
theorem ofWord?_name {k : Primitive} (hnil : k ≠ .nil) (hunknown : k ≠ .unknown) :
    Kind.ofWord? k.name = some .primitive ∧ Primitive.ofWord? k.name = some k := by
  cases k <;> first | exact absurd rfl hnil | exact absurd rfl hunknown | decide

/-- A type that is no function begins with a word. -/
theorem text_begins (t : Ty) (hs : t.Spelt IsIdentifier) (hb : t.Bare) (hf : t.isFunction = false) :
    (t.setFlags .plain).text.toList ≠ [] ∧
      ∀ c ∈ (t.setFlags .plain).text.toList.head?, isWordStart c = true := by
  match t with
  | primitive k w f =>
      obtain ⟨c, cs, hcs, hc, _⟩ := isWord_of_reserved (ofWord?_name hs.1 hs.2.1).1
      rw [setFlags, text_primitive, hcs]
      exact ⟨List.cons_ne_nil _ _, fun d hd => Option.some.inj hd ▸ hc⟩
  | named n f =>
      have hn : IsIdentifier n := hs
      rw [setFlags, text_named]
      exact ⟨hn.nonempty, hn.start⟩
  | array e l f =>
      obtain ⟨hne, hstart⟩ := text_begins e hs.2 hb.2 hb.1
      rw [setFlags_of_flags hs.1] at hne hstart
      rw [setFlags, text_array l hb.1, String.toList_append, List.head?_append_of_ne_nil _ hne]
      exact ⟨by simp [hne], hstart⟩

/-- With its marks around it, the text of a type is cut up if it is without them. -/
theorem lexes_text {t : Ty} (hm : t.flags.Marks) (hs : t.Spelt IsIdentifier) (hb : t.Bare)
    (hcore : ∀ rest, StopsWord rest → Lexes t.core (t.setFlags .plain).text.toList rest) (rest : List Char)
    (hrest : StopsWord rest) :
    Lexes t.glyphs t.text.toList rest := by
  have stops : StopsWord (t.flags.closing.toList ++ rest) := by
    unfold Flags.closing
    split
    · rintro _ ⟨⟩
      decide
    · exact hrest
  have front : t.flags = .plain ∨ ∀ d ∈ ((t.setFlags .plain).text.toList ++ t.flags.closing.toList ++ rest).head?,
      isWordStart d = true := by
    cases hf : t.isFunction with
    | true =>
        left
        cases t <;> cases hf
        exact hb.1
    | false =>
        obtain ⟨hne, hstart⟩ := text_begins t hs hb hf
        right
        rwa [List.append_assoc, List.head?_append_of_ne_nil _ hne]
  rw [hb.text_eq, String.toList_append, String.toList_append, List.append_assoc]
  exact (Flags.lexes_front hm front).append ((hcore _ stops).append (Flags.lexes_back _ _))

mutual

theorem lexes_core (t : Ty) (hs : t.Spelt IsIdentifier) (hb : t.Bare) (rest : List Char) (hrest : StopsWord rest) :
    Lexes t.core (t.setFlags .plain).text.toList rest := by
  cases t with
  | primitive k w f =>
      rw [setFlags, text_primitive]
      exact .ofComes (reserved_comes (ofWord?_name hs.1 hs.2.1).1 hrest)
  | named n f =>
      rw [setFlags, text_named]
      exact IsIdentifier.lexes hs hrest
  | array e l f =>
      have element := lexes_core e hs.2 hb.2 ("[]".toList ++ rest) (by rintro _ ⟨⟩; decide)
      rw [setFlags_of_flags hs.1] at element
      rw [setFlags, text_array l hb.1, String.toList_append]
      exact element.append ((Lexes.ofAlone .leftBracket (by decide)).append
        (Lexes.ofAlone .rightBracket (by decide)))
  | function ps r f =>
      have params := lexes_listed ps hs.1 hb.2.1 (") -> ".toList ++ r.text.toList ++ rest) (by rintro _ ⟨⟩; decide)
      have result := lexes_text hs.2.1 hs.2.2 hb.2.2 (lexes_core r hs.2.2 hb.2.2) rest hrest
      have arrow : Lexes [.mark .rightParen, .mark .arrow] ") -> ".toList (r.text.toList ++ rest) :=
        (Lexes.ofAlone .rightParen (by decide)).append (Lexes.blank.append
          ((Lexes.ofAlone .arrow (by decide)).append Lexes.blank))
      rw [setFlags, text_function, String.toList_append, String.toList_append, String.toList_append, List.append_assoc,
        List.append_assoc]
      exact (Lexes.ofAlone .leftParen (by decide)).append (params.append (arrow.append result))

theorem lexes_listed (ts : List Ty) (hs : WrittenAll IsIdentifier ts) (hb : BareAll ts) (rest : List Char)
    (hrest : StopsWord rest) : Lexes (listed ts) (join ", " (texts ts)).toList rest := by
  match ts with
  | [] => exact .nil
  | [t] => exact lexes_text hs.1.1 hs.1.2 hb.1 (lexes_core t hs.1.2 hb.1) rest hrest
  | t :: u :: ts =>
      have later := lexes_listed (u :: ts) hs.2 hb.2 rest hrest
      have first := lexes_text hs.1.1 hs.1.2 hb.1 (lexes_core t hs.1.2 hb.1)
        (", ".toList ++ (join ", " (texts (u :: ts))).toList ++ rest) (by rintro _ ⟨⟩; decide)
      have comma : Lexes [.mark .comma] ", ".toList ((join ", " (texts (u :: ts))).toList ++ rest) :=
        (Lexes.ofAlone .comma (by decide)).append Lexes.blank
      have text : (join ", " (texts (t :: u :: ts))).toList =
          t.text.toList ++ (", ".toList ++ (join ", " (texts (u :: ts))).toList) := by
        simp [texts, join]
      rw [text]
      exact first.append (comma.append later)

end

end Lexing

end Ty
end OnePass
