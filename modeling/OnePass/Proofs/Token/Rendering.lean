import OnePass.Proofs.Token.Pieces

/-!
Tokens that are written out and scanned again. A lexeme that is possible for its kind is written as it is, but for
the suffix of a number and for literals, which are quoted and escaped. With a line for each, any list of such
tokens comes back as it was.
-/

namespace OnePass
namespace Token

/-- A character of a literal as it is written: one of the seven that have an escape by that, any other as it is. -/
def escaped : Char → List Char
  | '\n' => ['\\', 'n']
  | '\r' => ['\\', 'r']
  | '\t' => ['\\', 't']
  | '\\' => ['\\', '\\']
  | '"' => ['\\', '"']
  | '\'' => ['\\', '\'']
  | '\x00' => ['\\', '0']
  | c => [c]

namespace Kind

/-- Decimal digits, or hexadecimal ones behind `0x`. -/
inductive IsInteger : List Char → Prop where
  | decimal {c : Char} {cs : List Char} (digits : ∀ d ∈ c :: cs, d.isDigit = true) : IsInteger (c :: cs)
  | hexadecimal {x c : Char} {cs : List Char} (mark : x ∈ ['x', 'X'])
      (digits : ∀ d ∈ c :: cs, Scan.isHexDigit d = true) : IsInteger ('0' :: x :: c :: cs)

/-- Decimal digits with a point between them. -/
inductive IsFloat : List Char → Prop where
  | intro {c f : Char} {cs fs : List Char} (whole : ∀ d ∈ c :: cs, d.isDigit = true)
      (fraction : ∀ d ∈ f :: fs, d.isDigit = true) : IsFloat (c :: cs ++ '.' :: f :: fs)

/-- Keywords, operators and delimiters, which have a spelling of their own. -/
def isSpelled : Kind → Bool
  | .primitive | .identifier | .integer | .longInteger | .float | .doubleFloat | .string | .char | .comment | .eof =>
    false
  | _ => true

/-- The fixed spellings of a kind: what it is called in diagnostics, another keyword for imports, and the words
for built-in types. -/
inductive Spells : Kind → String → Prop where
  | own {kind : Kind} (h : kind.isSpelled = true) : Spells kind kind.text
  | use : Spells .kwImport "use"
  | primitive {word : String} {p : Primitive} (known : (word, p) ∈ Primitive.words) : Spells .primitive word

/-- The lexemes that are possible for a kind. There is none for the end of a file. -/
inductive Allows : Kind → List Char → Prop where
  | identifier {c : Char} {cs : List Char} (start : Scan.isWordStart c = true)
      (chars : ∀ d ∈ cs, Scan.isWordChar d = true) (free : ∀ kind : Kind, ¬kind.Spells (.ofList (c :: cs))) :
      Allows .identifier (c :: cs)
  | spelled {word : String} {kind : Kind} (known : kind.Spells word) : Allows kind word.toList
  | integer {cs : List Char} (digits : IsInteger cs) : Allows .integer cs
  | longInteger {cs : List Char} (digits : IsInteger cs) : Allows .longInteger cs
  | float {cs : List Char} (digits : IsFloat cs) : Allows .float cs
  | doubleFloat {cs : List Char} (digits : IsFloat cs) : Allows .doubleFloat cs
  | string (cs : List Char) : Allows .string cs
  | char (c : Char) : Allows .char [c]
  | lineComment {cs : List Char} (line : '\n' ∉ cs) : Allows .comment ('/' :: '/' :: cs)
  /-- The first `*/` is the one at the end. -/
  | blockComment {cs : List Char} (inner : ¬['*', '/'] <:+: cs ++ ['*']) :
      Allows .comment ('/' :: '*' :: cs ++ ['*', '/'])

/-- How a token of a kind with a lexeme is written. -/
def written (lexeme : List Char) : Kind → List Char
  | .longInteger => lexeme ++ ['L']
  | .doubleFloat => lexeme ++ ['D']
  | .string => '"' :: lexeme.flatMap escaped ++ ['"']
  | .char => '\'' :: lexeme.flatMap escaped ++ ['\'']
  | _ => lexeme

theorem Spells.cases {kind : Kind} {word : String} (h : kind.Spells word) :
    ofWord? word = some kind ∨ (word, kind) ∈ operators := by
  cases h with
  | own h => cases kind <;> first | exact absurd h (by decide) | exact .inl (by decide) | exact .inr (by decide)
  | use => exact .inl (by decide)
  | primitive known =>
      have words : ∀ entry ∈ Primitive.words, ofWord? entry.1 = some .primitive := by decide
      exact .inl (words _ known)

/-- The spellings are those of the tables that scanning goes by. -/
theorem spells_iff {kind : Kind} {word : String} :
    kind.Spells word ↔ ofWord? word = some kind ∨ (word, kind) ∈ operators := by
  have own {entry : String × Kind} (h : entry.2.isSpelled = true ∧ entry.2.text = entry.1) :
      entry.2.Spells entry.1 := h.2 ▸ .own h.1
  have words : ∀ entry ∈ keywords, entry.2.isSpelled = true ∧ entry.2.text = entry.1 ∨ entry = ("use", .kwImport) := by
    decide
  have signs : ∀ entry ∈ operators, entry.2.isSpelled = true ∧ entry.2.text = entry.1 := by decide
  refine ⟨Spells.cases, ?_⟩
  rintro (h | h)
  · rcases ofWord?_cases h with hk | ⟨rfl, p, hp⟩
    · rcases words _ hk with known | heq
      · exact own known
      · cases heq
        exact .use
    · exact .primitive hp
  · exact own (signs _ h)

theorem not_spells {word : String} (hword : ofWord? word = none) (hsign : ∀ entry ∈ operators, entry.1 ≠ word)
    (kind : Kind) : ¬kind.Spells word := by
  intro h
  rcases spells_iff.mp h with known | known
  · cases hword.symm.trans known
  · exact hsign _ known rfl

theorem written_self {kind : Kind} (h : kind ∉ edited) (lexeme : List Char) : kind.written lexeme = lexeme := by
  cases kind <;> first | rfl | exact absurd (by decide) h

end Kind

namespace Scan

variable {c : Char} {cs rest : List Char}

/-- Nothing follows, or a new line. -/
def EndsLine (rest : List Char) : Prop := ∀ c ∈ rest.head?, c = '\n'

theorem takeWhile_run {p : Char → Bool} (hcs : ∀ c ∈ cs, p c = true) (hrest : ∀ c ∈ rest.head?, p c = false) :
    (cs ++ rest).takeWhile p = cs := by
  rw [List.takeWhile_append_of_pos hcs]
  cases rest with
  | nil => exact List.append_nil cs
  | cons d rest => rw [List.takeWhile_cons, hrest d rfl, if_neg (by decide), List.append_nil]

theorem dropWhile_run {p : Char → Bool} (hcs : ∀ c ∈ cs, p c = true) (hrest : ∀ c ∈ rest.head?, p c = false) :
    (cs ++ rest).dropWhile p = rest := by
  rw [List.dropWhile_append_of_pos hcs]
  cases rest with
  | nil => rfl
  | cons d rest => rw [List.dropWhile_cons, hrest d rfl, if_neg (by decide)]

theorem isBlank_eq_false (low : 32 < c.toNat) (high : c.toNat < 127) : isBlank c = false := by
  simp [isBlank, blankRanges]
  omega

theorem isDigit_range (h : c.isDigit = true) : 48 ≤ c.toNat ∧ c.toNat ≤ 57 := Char.isDigit_iff_toNat.mp h

theorem isAlpha_range (h : c.isAlpha = true) : 65 ≤ c.toNat ∧ c.toNat ≤ 122 ∧ c.isDigit = false := by
  have digit : c.isDigit = true → 48 ≤ c.toNat ∧ c.toNat ≤ 57 := isDigit_range
  have letter : (65 ≤ c.toNat ∧ c.toNat ≤ 90) ∨ (97 ≤ c.toNat ∧ c.toNat ≤ 122) := by
    rcases Bool.or_eq_true_iff.mp h with upper | lower
    · exact .inl (of_decide_eq_true upper)
    · obtain ⟨low, high⟩ := Bool.and_eq_true_iff.mp lower
      exact .inr ⟨of_decide_eq_true low, of_decide_eq_true high⟩
  exact ⟨by omega, by omega, by grind⟩

theorem isWordStart_range (h : isWordStart c = true) : 36 ≤ c.toNat ∧ c.toNat ≤ 122 ∧ c.isDigit = false := by
  simp only [isWordStart, Bool.or_eq_true, beq_iff_eq] at h
  rcases h with (letter | rfl) | rfl
  · obtain ⟨low, high, digit⟩ := isAlpha_range letter
    exact ⟨by omega, high, digit⟩
  · decide
  · decide

/-- What scanning cuts off from `run` and what is behind it: all of `run`. -/
def Comes (kind : Kind) (lexeme run rest : List Char) : Prop :=
  ∃ c cs, run = c :: cs ∧ isBlank c = false ∧ token c (cs ++ rest) = .ok ⟨kind, lexeme, cs.length⟩

/-! ### Words -/

/-- The character behind a word is none that a word goes on with. -/
def StopsWord (rest : List Char) : Prop := ∀ d ∈ rest.head?, isWordChar d = false

theorem EndsLine.stopsWord (h : EndsLine rest) : StopsWord rest := fun d hd => h d hd ▸ by decide

theorem word_run (hcs : ∀ d ∈ cs, isWordChar d = true) (hrest : StopsWord rest) :
    word c (cs ++ rest) = ⟨(Kind.ofWord? (.ofList (c :: cs))).getD .identifier, c :: cs, cs.length⟩ := by
  rw [word, takeWhile_run hcs hrest]

theorem word_comes (hc : isWordStart c = true) (hcs : ∀ d ∈ cs, isWordChar d = true) (hrest : StopsWord rest) :
    Comes ((Kind.ofWord? (.ofList (c :: cs))).getD .identifier) (c :: cs) (c :: cs) rest := by
  obtain ⟨low, high, _⟩ := isWordStart_range hc
  refine ⟨c, cs, rfl, isBlank_eq_false (by omega) (by omega), ?_⟩
  unfold token
  rw [if_pos hc, word_run hcs hrest]

theorem isWord_of_reserved {word : String} {kind : Kind} (h : Kind.ofWord? word = some kind) :
    ∃ c cs, word.toList = c :: cs ∧ isWordStart c = true ∧ ∀ d ∈ cs, isWordChar d = true := by
  have known : word ∈ Kind.keywords.map (·.1) ++ Primitive.words.map (·.1) := by
    rcases Kind.ofWord?_cases h with hk | ⟨_, p, hp⟩
    · exact List.mem_append_left _ (List.mem_map_of_mem hk)
    · exact List.mem_append_right _ (List.mem_map_of_mem hp)
  have words : ∀ w ∈ Kind.keywords.map (·.1) ++ Primitive.words.map (·.1),
      w.toList.head?.any isWordStart = true ∧ w.toList.all isWordChar = true := by decide +kernel
  obtain ⟨hstart, hchars⟩ := words word known
  obtain ⟨c, hhead, hc⟩ := (Option.any_eq_true _ _).mp hstart
  obtain ⟨cs, hcs⟩ := List.head?_eq_some_iff.mp hhead
  refine ⟨c, cs, hcs, hc, fun d hd => List.all_eq_true.mp hchars d ?_⟩
  rw [hcs]
  exact List.mem_cons_of_mem _ hd

theorem reserved_comes {word : String} {kind : Kind} (h : Kind.ofWord? word = some kind) (hrest : StopsWord rest) :
    Comes kind word.toList word.toList rest := by
  obtain ⟨c, cs, hcs, hc, hchars⟩ := isWord_of_reserved h
  have comes := word_comes hc hchars hrest
  rw [← hcs, String.ofList_toList, h] at comes
  exact comes

/-! ### Numbers -/

/-- The character behind an integer is neither a digit nor one that a number goes on with. -/
def StopsInteger (rest : List Char) : Prop :=
  ∀ d ∈ rest.head?, d.isDigit = false ∧ isHexDigit d = false ∧ d ≠ '.' ∧ d ≠ 'x' ∧ d ≠ 'X'

theorem EndsLine.stopsInteger (h : EndsLine rest) : StopsInteger rest := fun d hd => h d hd ▸ by decide

/-- A text that begins with a digit begins with a number. -/
theorem number_comes {kind : Kind} {lexeme run : List Char} (hc : c.isDigit = true)
    (h : number c (run ++ rest) = .ok ⟨kind, lexeme, run.length⟩) : Comes kind lexeme (c :: run) rest := by
  obtain ⟨low, high⟩ := isDigit_range hc
  refine ⟨c, run, rfl, isBlank_eq_false (by omega) (by omega), ?_⟩
  have start : isWordStart c ≠ true := by
    intro hs
    rw [(isWordStart_range hs).2.2] at hc
    cases hc
  unfold token
  rw [if_neg start, if_pos hc, h]

theorem number_decimal (h : ∀ d ∈ cs.head?, d ≠ 'x' ∧ d ≠ 'X') : number c cs = .ok (decimal c cs) := by
  unfold number
  split
  · exact absurd rfl (h 'x' rfl).1
  · exact absurd rfl (h 'X' rfl).2
  · rfl

/-- Digits are not taken for the mark of hexadecimal ones. -/
theorem StopsInteger.not_mark (h : StopsInteger rest) (hcs : ∀ d ∈ cs, d.isDigit = true) :
    ∀ d ∈ (cs ++ rest).head?, d ≠ 'x' ∧ d ≠ 'X' := by
  intro d hd
  cases cs with
  | nil => exact (h d hd).2.2.2
  | cons e cs =>
      obtain rfl := Option.some.inj hd
      have digit := hcs e List.mem_cons_self
      constructor <;> rintro rfl <;> cases digit

theorem decimal_digits (h : StopsInteger rest) (hcs : ∀ d ∈ cs, d.isDigit = true) :
    decimal c (cs ++ rest) = integer c cs rest := by
  have stops : ∀ d ∈ rest.head?, d.isDigit = false := fun d hd => (h d hd).1
  unfold decimal
  rw [takeWhile_run hcs stops, dropWhile_run hcs stops]
  dsimp only
  split
  · exact absurd rfl (h '.' rfl).2.2.1
  · rfl

theorem hexadecimal_digits {x : Char} (h : StopsInteger rest) (hcs : ∀ d ∈ c :: cs, isHexDigit d = true) :
    hexadecimal x (c :: cs ++ rest) = .ok (integer '0' (x :: c :: cs) rest) := by
  have stops : ∀ d ∈ rest.head?, isHexDigit d = false := fun d hd => (h d hd).2.1
  unfold hexadecimal
  rw [takeWhile_run hcs stops, dropWhile_run hcs stops]
  rfl

/-- An integer is cut off whole, whatever suffix is behind it. -/
theorem isInteger_number {lexeme : List Char} (h : Kind.IsInteger lexeme) (hrest : StopsInteger rest) :
    ∃ c run, lexeme = c :: run ∧ c.isDigit = true ∧ number c (run ++ rest) = .ok (integer c run rest) := by
  cases h with
  | @decimal c cs digits =>
      have later : ∀ d ∈ cs, d.isDigit = true := fun d hd => digits d (List.mem_cons_of_mem _ hd)
      refine ⟨c, cs, rfl, digits c List.mem_cons_self, ?_⟩
      rw [number_decimal (hrest.not_mark later), decimal_digits hrest later]
  | @hexadecimal x c cs mark digits =>
      refine ⟨'0', x :: c :: cs, rfl, rfl, ?_⟩
      have hex := hexadecimal_digits (x := x) hrest digits
      simp only [List.mem_cons, List.not_mem_nil, or_false] at mark
      rcases mark with rfl | rfl <;> exact hex

/-- A float is cut off whole, whatever suffix is behind it. -/
theorem isFloat_number {lexeme : List Char} (h : Kind.IsFloat lexeme) (hrest : ∀ d ∈ rest.head?, d.isDigit = false) :
    ∃ c run, lexeme = c :: run ∧ c.isDigit = true ∧
      number c (run ++ rest) = .ok (suffixed c run rest ['D', 'd'] .float .doubleFloat) := by
  cases h with
  | @intro c f cs fs whole fraction =>
      have later : ∀ d ∈ cs, d.isDigit = true := fun d hd => whole d (List.mem_cons_of_mem _ hd)
      have behind : ∀ d ∈ fs, d.isDigit = true := fun d hd => fraction d (List.mem_cons_of_mem _ hd)
      have point : ∀ d ∈ ('.' :: f :: fs ++ rest).head?, d.isDigit = false := by
        rintro _ ⟨⟩
        rfl
      refine ⟨c, cs ++ '.' :: f :: fs, rfl, whole c List.mem_cons_self, ?_⟩
      rw [List.append_assoc, number_decimal]
      · unfold decimal
        rw [takeWhile_run later point, dropWhile_run later point]
        dsimp only [List.cons_append]
        split
        · rename_i heq
          cases heq
          rw [if_pos (fraction f List.mem_cons_self), takeWhile_run behind hrest, dropWhile_run behind hrest]
        · rename_i hpoint
          exact absurd rfl (hpoint f (fs ++ rest))
      · intro d hd
        cases cs with
        | nil =>
            obtain rfl := Option.some.inj hd
            decide
        | cons e cs =>
            obtain rfl := Option.some.inj hd
            have digit := later e List.mem_cons_self
            constructor <;> rintro rfl <;> cases digit

theorem EndsLine.not_mem {suffixes : List Char} (h : EndsLine rest) (hs : '\n' ∉ suffixes) :
    ∀ d ∈ rest.head?, d ∉ suffixes :=
  fun d hd => h d hd ▸ hs

theorem suffixed_plain {tail suffixes : List Char} {plain marked : Kind} (hs : ∀ d ∈ rest.head?, d ∉ suffixes) :
    suffixed c tail rest suffixes plain marked = ⟨plain, c :: tail, tail.length⟩ := by
  unfold suffixed
  rw [if_neg]
  intro h
  obtain ⟨d, hd, hmem⟩ := (Option.any_eq_true _ _).mp h
  exact hs d hd (by simpa using hmem)

theorem suffixed_marked {tail suffixes : List Char} {plain marked : Kind} {suffix : Char} (hs : suffix ∈ suffixes) :
    suffixed c tail (suffix :: rest) suffixes plain marked =
      ⟨marked, c :: tail, (tail ++ [suffix]).length⟩ := by
  unfold suffixed
  rw [if_pos (by simpa using hs), List.length_append]
  rfl

theorem integer_comes {lexeme : List Char} (h : Kind.IsInteger lexeme) (hrest : StopsInteger rest)
    (hs : ∀ d ∈ rest.head?, d ∉ ['L', 'l']) : Comes .integer lexeme lexeme rest := by
  obtain ⟨c, run, rfl, hc, hnumber⟩ := isInteger_number h hrest
  rw [integer, suffixed_plain hs] at hnumber
  exact number_comes hc hnumber

theorem longInteger_comes {lexeme : List Char} {suffix : Char} (h : Kind.IsInteger lexeme)
    (hs : suffix ∈ ['L', 'l']) : Comes .longInteger lexeme (lexeme ++ [suffix]) rest := by
  have stops : StopsInteger (suffix :: rest) := by
    rintro _ ⟨⟩
    simp only [List.mem_cons, List.not_mem_nil, or_false] at hs
    rcases hs with rfl | rfl <;> decide
  obtain ⟨c, run, rfl, hc, hnumber⟩ := isInteger_number h stops
  rw [integer, suffixed_marked hs, ← List.singleton_append, ← List.append_assoc] at hnumber
  exact number_comes hc hnumber

theorem float_comes {lexeme : List Char} (h : Kind.IsFloat lexeme) (hrest : EndsLine rest) :
    Comes .float lexeme lexeme rest := by
  obtain ⟨c, run, rfl, hc, hnumber⟩ := isFloat_number h fun d hd => hrest d hd ▸ rfl
  rw [suffixed_plain (hrest.not_mem (by decide))] at hnumber
  exact number_comes hc hnumber

theorem doubleFloat_comes {lexeme : List Char} (h : Kind.IsFloat lexeme) :
    Comes .doubleFloat lexeme (lexeme ++ ['D']) rest := by
  have stops : ∀ d ∈ ('D' :: rest).head?, d.isDigit = false := by
    rintro _ ⟨⟩
    rfl
  obtain ⟨c, run, rfl, hc, hnumber⟩ := isFloat_number h stops
  rw [suffixed_marked (by decide), ← List.singleton_append, ← List.append_assoc] at hnumber
  exact number_comes hc hnumber

/-! ### Strings and characters -/

theorem decodes_escaped (quote : Char) (hquote : quote ∈ ['"', '\'']) (value : List Char) :
    Decodes quote (value.flatMap escaped) value := by
  induction value with
  | nil => exact .nil
  | cons c value ih =>
      rw [List.flatMap_cons]
      unfold escaped
      split
      case h_8 newline _ _ backslash double single _ =>
        refine .plain ?_ ih
        simp only [List.mem_cons, List.not_mem_nil, or_false, not_or] at hquote ⊢
        rcases hquote with rfl | rfl
        · exact ⟨backslash, double, newline⟩
        · exact ⟨backslash, single, newline⟩
      all_goals exact .escape rfl ih

theorem string_comes (value : List Char) :
    Comes .string value ('"' :: value.flatMap escaped ++ ['"']) rest := by
  refine ⟨'"', value.flatMap escaped ++ ['"'], rfl, by decide, ?_⟩
  have body := stringBody_eq_ok_iff.mpr ⟨_, rest, rfl, decodes_escaped '"' (by decide) value, rfl⟩
  rw [List.append_assoc, List.singleton_append, List.length_append]
  change string _ = _
  rw [string, body]
  rfl

theorem char_decodes {body : List Char} (rest : List Char) (h : Decodes '\'' body [c]) :
    char (body ++ '\'' :: rest) = .ok ⟨.char, [c], body.length + 1⟩ := by
  cases h with
  | plain free later =>
      cases later
      simp only [List.mem_cons, List.not_mem_nil, or_false, not_or] at free
      obtain ⟨backslash, quote, newline⟩ := free
      rw [List.singleton_append, char, if_neg (not_or.mpr ⟨quote, newline⟩)]
      · rfl
      · exact fun h => absurd h backslash
      · exact fun _ _ h => absurd h backslash
  | escape stands later =>
      cases later
      rw [List.cons_append, List.singleton_append, char, stands]
      rfl

theorem char_comes : Comes .char [c] ('\'' :: [c].flatMap escaped ++ ['\'']) rest := by
  refine ⟨'\'', [c].flatMap escaped ++ ['\''], rfl, by decide, ?_⟩
  have body := char_decodes rest (decodes_escaped '\'' (by decide) [c])
  rw [List.append_assoc, List.singleton_append, List.length_append]
  exact body

/-! ### Comments -/

theorem lineComment_comes (hcs : '\n' ∉ cs) (hrest : EndsLine rest) :
    Comes .comment ('/' :: '/' :: cs) ('/' :: '/' :: cs) rest := by
  refine ⟨'/', '/' :: cs, rfl, by decide, ?_⟩
  have line : ∀ d ∈ '/' :: cs, decide (d ≠ '\n') = true := by
    refine List.forall_mem_cons.mpr ⟨by decide, fun d hd => decide_eq_true ?_⟩
    rintro rfl
    exact hcs hd
  have stops : ∀ d ∈ rest.head?, decide (d ≠ '\n') = false := fun d hd => by simp [hrest d hd]
  change Except.ok (lineComment '/' ('/' :: cs ++ rest)) = _
  rw [lineComment, takeWhile_run line stops]

theorem blockLength?_run (rest : List Char) (hcs : ¬['*', '/'] <:+: cs ++ ['*']) :
    blockLength? (cs ++ '*' :: '/' :: rest) = some (cs.length + 2) := by
  induction cs with
  | nil => rfl
  | cons c cs ih =>
      have later : ¬['*', '/'] <:+: cs ++ ['*'] := fun h => hcs (h.trans (List.suffix_cons _ _).isInfix)
      rw [List.cons_append, blockLength?, ih later]
      · rfl
      · rintro after rfl hafter
        apply hcs
        cases cs with
        | nil => cases hafter
        | cons d cs =>
            obtain ⟨rfl, _⟩ := List.cons.inj hafter
            exact ⟨[], cs ++ ['*'], rfl⟩

theorem blockComment_comes (hcs : ¬['*', '/'] <:+: cs ++ ['*']) :
    Comes .comment ('/' :: '*' :: cs ++ ['*', '/']) ('/' :: '*' :: cs ++ ['*', '/']) rest := by
  refine ⟨'/', '*' :: cs ++ ['*', '/'], rfl, by decide, ?_⟩
  have length := blockLength?_run rest hcs
  have take : (cs ++ '*' :: '/' :: rest).take (cs.length + 2) = cs ++ ['*', '/'] := List.take_length_add_append 2
  rw [List.append_assoc]
  change blockComment '/' '*' (cs ++ '*' :: '/' :: rest) = _
  unfold blockComment
  rw [length]
  dsimp only
  rw [take, List.length_append]
  rfl

/-! ### Operators -/

/-- The character behind an operator makes neither a longer operator nor a comment of it. -/
def StopsOperator (spelling rest : List Char) : Prop :=
  ∀ d ∈ rest.head?, (∀ entry ∈ Kind.operators, ¬spelling ++ [d] <+: entry.1.toList) ∧
    (spelling = ['/'] → d ≠ '/' ∧ d ≠ '*')

theorem EndsLine.stopsOperator {spelling : List Char} (h : EndsLine rest) : StopsOperator spelling rest := by
  have oneLine : ∀ entry ∈ Kind.operators, '\n' ∉ entry.1.toList := by decide +kernel
  intro d hd
  obtain rfl := h d hd
  exact ⟨fun entry he hlonger => oneLine entry he (hlonger.subset (by simp)), fun _ => by decide⟩

/-- An operator that begins a text begins the one in front of it. -/
theorem StopsOperator.of_prefix_append {spelling : List Char} (h : StopsOperator spelling rest)
    {entry : String × Kind} (he : entry ∈ Kind.operators) (hbegins : entry.1.toList <+: spelling ++ rest) :
    entry.1.toList <+: spelling := by
  rcases List.prefix_or_prefix_of_prefix hbegins (List.prefix_append spelling rest) with hshort | ⟨after, hafter⟩
  · exact hshort
  · rw [← hafter] at hbegins
    obtain ⟨later, hlater⟩ := (List.prefix_append_right_inj spelling).mp hbegins
    cases after with
    | nil => exact ⟨[], by rw [← hafter]; simp⟩
    | cons d after =>
        refine absurd ⟨after, ?_⟩ ((h d (by simp [← hlater])).1 entry he)
        rw [← hafter, List.append_assoc, List.singleton_append]

/-- In front of an operator in the table there is none that it begins with. -/
theorem find?_operators : ∀ entry ∈ Kind.operators,
    Kind.operators.find? (fun other => other.1.toList.isPrefixOf entry.1.toList) = some entry := by
  decide +kernel

theorem operator_run {spelling : String} {kind : Kind} (h : (spelling, kind) ∈ Kind.operators)
    (hrest : StopsOperator spelling.toList rest) (hcs : spelling.toList = c :: cs) :
    operator c (cs ++ rest) = .ok ⟨kind, spelling.toList, cs.length⟩ := by
  obtain ⟨_, before, after, htable, hbefore⟩ := List.find?_eq_some_iff_append.mp (find?_operators _ h)
  have found : Kind.operators.find? (fun entry => entry.1.toList.isPrefixOf (c :: (cs ++ rest))) =
      some (spelling, kind) := by
    rw [← List.cons_append, ← hcs]
    refine List.find?_eq_some_iff_append.mpr ⟨?_, before, after, htable, fun other hother => ?_⟩
    · exact List.isPrefixOf_iff_prefix.mpr (List.prefix_append _ _)
    · have apart := hbefore other hother
      simp only [Bool.not_eq_true', ← Bool.not_eq_true, List.isPrefixOf_iff_prefix] at apart ⊢
      exact fun begins => apart (hrest.of_prefix_append (htable ▸ List.mem_append_left _ hother) begins)
  have length : spelling.length - 1 = cs.length := by
    rw [← String.length_toList, hcs]
    rfl
  unfold operator
  split
  · rename_i hfind
    obtain ⟨rfl, rfl⟩ := Prod.mk.inj (Option.some.inj (found.symm.trans hfind))
    rw [length]
  · rename_i hfind
    cases found.symm.trans hfind

theorem operator_comes {spelling : String} {kind : Kind} (h : (spelling, kind) ∈ Kind.operators)
    (hrest : StopsOperator spelling.toList rest) : Comes kind spelling.toList spelling.toList rest := by
  have plain : ∀ entry ∈ Kind.operators, entry.1.toList.head?.any (fun c => decide (isBlank c = false ∧
      isWordStart c = false ∧ c.isDigit = false ∧ c ≠ '"' ∧ c ≠ '\'' ∧
      (c = '/' → entry.1.toList.tail ∈ [[], ['=']]))) = true := by decide +kernel
  obtain ⟨c, hc, hplain⟩ := (Option.any_eq_true _ _).mp (plain _ h)
  obtain ⟨hblank, hword, hdigit, hdouble, hsingle, hslash⟩ := of_decide_eq_true hplain
  obtain ⟨cs, hcs⟩ := List.head?_eq_some_iff.mp hc
  refine ⟨c, cs, hcs, hblank, ?_⟩
  rw [hcs] at hslash
  have next : c = '/' → ∀ d ∈ (cs ++ rest).head?, d ≠ '/' ∧ d ≠ '*' := by
    intro hc d hd
    have hcs := hslash hc
    simp only [List.tail_cons, List.mem_cons, List.not_mem_nil, or_false] at hcs
    rcases hcs with rfl | rfl
    · exact (hrest d hd).2 (by simp [‹spelling.toList = [c]›, hc])
    · obtain rfl := Option.some.inj hd
      decide
  unfold token
  rw [if_neg (by simp [hword]), if_neg (by simp [hdigit])]
  split
  · exact absurd rfl hdouble
  · exact absurd rfl hsingle
  · rename_i heq
    exact absurd rfl (next rfl '/' (by rw [heq]; rfl)).1
  · rename_i heq
    exact absurd rfl (next rfl '*' (by rw [heq]; rfl)).2
  · exact operator_run h hrest hcs

/-! ### Tokens -/

theorem allows_comes {kind : Kind} {lexeme : List Char} (h : kind.Allows lexeme) (hrest : EndsLine rest) :
    Comes kind lexeme (kind.written lexeme) rest := by
  cases h with
  | identifier start chars free =>
      have comes := word_comes start chars hrest.stopsWord
      rw [Option.eq_none_iff_forall_ne_some.mpr fun kind hk => free kind (Kind.spells_iff.mpr (.inl hk))] at comes
      exact comes
  | spelled known =>
      rcases Kind.spells_iff.mp known with known | known
      · rw [Kind.written_self (Kind.ofWord?_not_mem_edited known)]
        exact reserved_comes known hrest.stopsWord
      · have plain : ∀ entry ∈ Kind.operators, entry.2 ∉ Kind.edited := by decide
        rw [Kind.written_self (plain _ known)]
        exact operator_comes known hrest.stopsOperator
  | integer digits => exact integer_comes digits hrest.stopsInteger (hrest.not_mem (by decide))
  | longInteger digits => exact longInteger_comes digits (by decide)
  | float digits => exact float_comes digits hrest
  | doubleFloat digits => exact doubleFloat_comes digits
  | string => exact string_comes _
  | char c => exact char_comes
  | lineComment line => exact lineComment_comes line hrest
  | blockComment inner => exact blockComment_comes inner

/-- What belongs to the token before is passed over. -/
theorem tokens_skip {source : Source} (skipped : List Char) (offset : Nat) :
    tokens source skipped.length offset (skipped ++ cs) = tokens source 0 (offset + byteCount skipped) cs := by
  induction skipped generalizing offset with
  | nil => rfl
  | cons c skipped ih =>
      rw [List.length_cons, List.cons_append, tokens, ih, byteCount, Nat.add_assoc]

theorem Comes.tokens {kind : Kind} {lexeme run : List Char} (h : Comes kind lexeme run rest) (source : Source)
    (offset : Nat) : tokens source 0 offset (run ++ rest) =
      (tokens source 0 (offset + byteCount run) rest).map
        (⟨kind, .ofList lexeme, .ofLength offset (byteCount run) source.id⟩ :: ·) := by
  obtain ⟨c, cs, rfl, hblank, htoken⟩ := h
  have whole : (c :: (cs ++ rest)).take (cs.length + 1) = c :: cs := by simp
  rw [List.cons_append, Scan.tokens, if_neg (by simp [hblank]), htoken]
  dsimp only
  rw [tokens_skip, whole, byteCount, ← Nat.add_assoc]
  cases Scan.tokens source 0 (offset + c.utf8Size + byteCount cs) rest <;> rfl

end Scan

/-- A token without its place: a kind and a lexeme that is possible for it. -/
structure Unplaced where
  kind : Kind
  lexeme : String
  allowed : kind.Allows lexeme.toList

def Unplaced.ofAllows {kind : Kind} {lexeme : List Char} (h : kind.Allows lexeme) : Unplaced :=
  ⟨kind, .ofList lexeme, by rwa [String.toList_ofList]⟩

/-- The token as it is written. -/
def Unplaced.text (u : Unplaced) : String := .ofList (u.kind.written u.lexeme.toList)

namespace Scan

/-- A written token in front of a text is the first token of it. -/
theorem tokens_unplaced (u : Unplaced) (rest : List Char) (hrest : EndsLine rest) (source : Source) (offset : Nat) :
    ∃ offset' span, tokens source 0 offset (u.text.toList ++ rest) =
      (tokens source 0 offset' rest).map (⟨u.kind, u.lexeme, span⟩ :: ·) := by
  have htokens := (allows_comes u.allowed hrest).tokens source offset
  rw [String.ofList_toList] at htokens
  exact ⟨_, _, by rw [Unplaced.text, String.toList_ofList, htokens]⟩

theorem tokens_lines (source : Source) (offset : Nat) (us : List Unplaced) :
    ∃ ts, tokens source 0 offset (join "\n" (us.map (·.text))).toList = .ok ts ∧
      ts.map (fun t => (t.kind, t.lexeme)) = us.map (fun u => (u.kind, u.lexeme)) ++ [(.eof, "")] := by
  induction us generalizing offset with
  | nil => exact ⟨_, rfl, rfl⟩
  | cons u us ih =>
      cases us with
      | nil =>
          obtain ⟨offset', span, htokens⟩ := tokens_unplaced u [] (by simp [EndsLine]) source offset
          rw [List.append_nil] at htokens
          exact ⟨_, htokens, rfl⟩
      | cons v us =>
          obtain ⟨offset', span, htokens⟩ := tokens_unplaced u
            ('\n' :: (join "\n" ((v :: us).map (·.text))).toList) (by simp [EndsLine]) source offset
          obtain ⟨ts, hlater, hts⟩ := ih (offset' + '\n'.utf8Size)
          refine ⟨⟨u.kind, u.lexeme, span⟩ :: ts, ?_, ?_⟩
          · have blank : tokens source 0 offset' ('\n' :: (join "\n" ((v :: us).map (·.text))).toList) = .ok ts := by
              rw [tokens, if_pos (by decide), hlater]
            rw [blank] at htokens
            have lines : (join "\n" ((u :: v :: us).map (·.text))).toList =
                u.text.toList ++ '\n' :: (join "\n" ((v :: us).map (·.text))).toList := by
              simp [join]
            rw [lines, htokens]
            rfl
          · rw [List.map_cons, hts]
            rfl

end Scan
end Token

/-- Tokens that are written out, each on a line of its own, are scanned into the same kinds and lexemes. -/
theorem Source.tokens_written (id : Nat) (path : String) (us : List Token.Unplaced) :
    ∃ ts, Source.tokens ⟨id, path, join "\n" (us.map (·.text))⟩ = .ok ts ∧
      ts.map (fun t => (t.kind, t.lexeme)) = us.map (fun u => (u.kind, u.lexeme)) ++ [(.eof, "")] :=
  Token.Scan.tokens_lines _ _ us

/-- Tokens of all sorts: a name, a keyword, the other word for imports, a built-in type, an operator, numbers of
each notation, literals with characters that are escaped, and comments. -/
def Token.Unplaced.sorts : List Token.Unplaced :=
  have digits {p : Char → Bool} (cs : List Char) (h : cs.all p = true) := List.all_eq_true.mp h
  [.ofAllows (.identifier (by decide) (digits ['i', 'f'] rfl)
      (Token.Kind.not_spells (by decide +kernel : Token.Kind.ofWord? (.ofList ['$', 'i', 'f']) = none) (by decide))),
   ⟨.kwWhile, "while", .spelled (.own rfl)⟩,
   ⟨.kwImport, "use", .spelled .use⟩,
   ⟨.primitive, "int32", .spelled (.primitive (by decide : (_, Primitive.i32) ∈ _))⟩,
   ⟨.shiftLeft, "<<", .spelled (.own rfl)⟩,
   .ofAllows (.integer (.decimal (digits ['0', '7'] rfl))),
   .ofAllows (.longInteger (.hexadecimal (List.mem_cons_self : 'x' ∈ _) (digits ['f', 'D'] rfl))),
   .ofAllows (.float (.intro (digits ['1'] rfl) (digits ['5', '0'] rfl))),
   .ofAllows (.doubleFloat (.intro (digits ['1'] rfl) (digits ['5'] rfl))),
   ⟨.string, "a\"\n// b", .string _⟩,
   .ofAllows (.char '\''),
   .ofAllows (.lineComment (by decide : '\n' ∉ [' ', '"'])),
   .ofAllows (.blockComment (by decide : ¬_ <:+: ['*', '\n', '/'] ++ ['*']))]

theorem Source.tokens_written_sorts : ∃ ts, Source.tokens ⟨0, "main.st",
    "$if\nwhile\nuse\nint32\n<<\n07\n0xfDL\n1.50\n1.5D\n\"a\\\"\\n// b\"\n'\\''\n// \"\n/**\n/*/"⟩ = .ok ts ∧
    ts.map (fun t => (t.kind, t.lexeme)) =
      [(.identifier, "$if"), (.kwWhile, "while"), (.kwImport, "use"), (.primitive, "int32"), (.shiftLeft, "<<"),
       (.integer, "07"), (.longInteger, "0xfD"), (.float, "1.50"), (.doubleFloat, "1.5"),
       (.string, "a\"\n// b"), (.char, "'"), (.comment, "// \""), (.comment, "/**\n/*/"), (.eof, "")] :=
  Source.tokens_written 0 "main.st" Token.Unplaced.sorts

end OnePass
