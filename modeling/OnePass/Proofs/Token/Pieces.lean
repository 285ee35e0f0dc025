import OnePass.Proofs.Token.Words

/-!
What the pieces are that a text is cut into. A piece is a run of characters at the front of the text, and its
lexeme is that run, but for the suffix of a number and the quotes and escapes of a literal. Where no piece
begins, the fault is one of syntax.
-/

namespace OnePass
namespace Token

/-- The characters between two quotes, and what they stand for: a backslash and the character behind it for
one character, any other for itself. -/
inductive Decodes (quote : Char) : List Char → List Char → Prop where
  | nil : Decodes quote [] []
  | plain {c : Char} {body value : List Char} (free : c ∉ ['\\', quote, '\n'])
      (later : Decodes quote body value) : Decodes quote (c :: body) (c :: value)
  | escape {e c : Char} {body value : List Char} (stands : Scan.unescape? e = some c)
      (later : Decodes quote body value) : Decodes quote ('\\' :: e :: body) (c :: value)

/-- The run of characters that a token of a kind is written with, by its lexeme. -/
def Kind.Shows (lexeme run : List Char) : Kind → Prop
  | .longInteger => ∃ suffix ∈ ['L', 'l'], run = lexeme ++ [suffix]
  | .doubleFloat => ∃ suffix ∈ ['D', 'd'], run = lexeme ++ [suffix]
  | .string => ∃ body, run = '"' :: body ++ ['"'] ∧ Decodes '"' body lexeme
  | .char => ∃ body value, run = '\'' :: body ++ ['\''] ∧ Decodes '\'' body [value] ∧ lexeme = [value]
  | _ => run = lexeme

/-- The kinds whose lexeme is not what is written. -/
def Kind.edited : List Kind := [.longInteger, .doubleFloat, .string, .char]

theorem Kind.shows_self {kind : Kind} (h : kind ∉ edited) (run : List Char) : kind.Shows run run := by
  cases kind <;> first | rfl | exact absurd (by decide) h

theorem Kind.ofWord?_not_mem_edited {w : String} {kind : Kind} (h : ofWord? w = some kind) : kind ∉ edited := by
  have free : ∀ k ∈ keywords.map (·.2), k ∉ edited := by decide
  rcases mem_keywords_of_ofWord? h with rfl | hk
  · decide
  · exact free kind hk

namespace Scan

variable {c : Char} {cs : List Char} {piece : Piece}

/-- The piece is a run of characters that begins with `c`, at the front of a text. -/
def Piece.Fronts (piece : Piece) (c : Char) (cs : List Char) : Prop :=
  ∃ run rest, cs = run ++ rest ∧ piece.extra = run.length ∧ piece.kind.Shows piece.lexeme (c :: run)

theorem word_fronts : (word c cs).Fronts c cs := by
  refine ⟨cs.takeWhile isWordChar, cs.dropWhile isWordChar, List.takeWhile_append_dropWhile.symm, rfl, ?_⟩
  apply Kind.shows_self
  dsimp only [word]
  cases hw : Kind.ofWord? (String.ofList (c :: cs.takeWhile isWordChar)) with
  | none => decide
  | some kind => exact Kind.ofWord?_not_mem_edited hw

/-! ### Numbers -/

theorem suffixed_fronts {tail rest suffixes : List Char} {plain marked : Kind} (hcs : cs = tail ++ rest)
    (hplain : ∀ run, plain.Shows run run)
    (hmarked : ∀ run, ∀ suffix ∈ suffixes, marked.Shows run (run ++ [suffix])) :
    (suffixed c tail rest suffixes plain marked).Fronts c cs := by
  subst hcs
  unfold suffixed
  split
  · rename_i hsuffix
    obtain ⟨suffix, hhead, hmem⟩ := (Option.any_eq_true _ _).mp hsuffix
    obtain ⟨rest, rfl⟩ := List.head?_eq_some_iff.mp hhead
    exact ⟨tail ++ [suffix], rest, by simp, by simp, hmarked (c :: tail) suffix (by simpa using hmem)⟩
  · exact ⟨tail, rest, rfl, rfl, hplain _⟩

theorem integer_fronts {tail rest : List Char} (hcs : cs = tail ++ rest) : (integer c tail rest).Fronts c cs :=
  suffixed_fronts hcs (fun _ => rfl) fun _ suffix h => ⟨suffix, h, rfl⟩

theorem hexadecimal_fronts {x : Char} (h : hexadecimal x cs = .ok piece) : piece.Fronts '0' (x :: cs) := by
  unfold hexadecimal at h
  dsimp only at h
  split at h
  · cases h
  · obtain rfl := Except.ok.inj h
    apply integer_fronts
    rw [List.cons_append, List.takeWhile_append_dropWhile]

theorem decimal_fronts : (decimal c cs).Fronts c cs := by
  have whole : cs = cs.takeWhile Char.isDigit ++ cs.dropWhile Char.isDigit :=
    List.takeWhile_append_dropWhile.symm
  unfold decimal
  dsimp only
  split
  · rename_i d rest hdrop
    rw [hdrop] at whole
    split
    · refine suffixed_fronts ?_ (fun _ => rfl) fun _ suffix h => ⟨suffix, h, rfl⟩
      rw [List.append_assoc, List.cons_append, List.cons_append, List.takeWhile_append_dropWhile, ← whole]
    · exact integer_fronts whole
  · exact integer_fronts whole

theorem number_fronts (h : number c cs = .ok piece) : piece.Fronts c cs := by
  unfold number at h
  split at h
  · exact hexadecimal_fronts h
  · exact hexadecimal_fronts h
  · exact Except.ok.inj h ▸ decimal_fronts

/-! ### Strings and characters -/

/-- The value of a string is what the characters in front of the first quote stand for. -/
theorem stringBody_eq_ok_iff {value : List Char} {n : Nat} :
    stringBody cs = .ok (value, n) ↔
      ∃ body rest, cs = body ++ '"' :: rest ∧ Decodes '"' body value ∧ n = body.length + 1 := by
  constructor
  · intro h
    fun_induction stringBody cs generalizing value n with
    | case1 => cases h
    | case2 => cases h
    | case3 => cases h
    | case4 e cs c hescape value' n' hlater ih =>
        obtain ⟨rfl, rfl⟩ := Prod.mk.inj (Except.ok.inj h)
        obtain ⟨body, rest, rfl, hbody, rfl⟩ := ih hlater
        exact ⟨'\\' :: e :: body, rest, rfl, .escape hescape hbody, rfl⟩
    | case5 => cases h
    | case6 cs =>
        obtain ⟨rfl, rfl⟩ := Prod.mk.inj (Except.ok.inj h)
        exact ⟨[], cs, rfl, .nil, rfl⟩
    | case7 => cases h
    | case8 c cs hlast hpair hquote hnewline value' n' hlater ih =>
        obtain ⟨rfl, rfl⟩ := Prod.mk.inj (Except.ok.inj h)
        obtain ⟨body, rest, rfl, hbody, rfl⟩ := ih hlater
        have backslash : c ≠ '\\' := by
          rintro rfl
          cases body with
          | nil => exact hpair _ _ rfl rfl
          | cons e body => exact hpair _ _ rfl rfl
        exact ⟨c :: body, rest, rfl, .plain (by simp [*]) hbody, rfl⟩
    | case9 => cases h
  · rintro ⟨body, rest, rfl, hbody, rfl⟩
    induction hbody with
    | nil => rfl
    | @plain c body value free _ ih =>
        simp only [List.mem_cons, List.not_mem_nil, or_false, not_or] at free
        obtain ⟨backslash, quote, newline⟩ := free
        rw [List.cons_append, stringBody, if_neg quote, if_neg newline, ih]
        · rfl
        · exact fun h => absurd h backslash
        · exact fun _ _ h => absurd h backslash
    | @escape e c body value stands _ ih =>
        rw [List.cons_append, List.cons_append, stringBody, stands]
        simp only [ih]
        rfl

theorem string_fronts (h : string cs = .ok piece) : piece.Fronts '"' cs := by
  unfold string at h
  split at h
  · rename_i value n hbody
    obtain ⟨body, rest, rfl, hdecodes, rfl⟩ := stringBody_eq_ok_iff.mp hbody
    obtain rfl := Except.ok.inj h
    exact ⟨body ++ ['"'], rest, by simp, by simp, body, by simp, hdecodes⟩
  · cases h

theorem closeChar_fronts (body : List Char) {value : Char} {rest : List Char} (hbody : Decodes '\'' body [value])
    (h : closeChar value (body.length + 1) rest = .ok piece) : piece.Fronts '\'' (body ++ rest) := by
  unfold closeChar at h
  split at h
  · cases h
  · rename_i d rest
    split at h
    · rename_i hquote
      obtain rfl := Except.ok.inj h
      exact ⟨body ++ ['\''], rest, by simp [hquote], by simp, body, value, by simp, hbody, rfl⟩
    · cases h

theorem char_fronts (h : char cs = .ok piece) : piece.Fronts '\'' cs := by
  unfold char at h
  split at h
  · cases h
  · cases h
  · rename_i e rest
    split at h
    · cases h
    · rename_i value hescape
      exact closeChar_fronts ['\\', e] (.escape hescape .nil) h
  · rename_i value rest hlast hpair
    split at h
    · cases h
    · rename_i free
      have backslash : value ≠ '\\' := by
        rintro rfl
        cases rest with
        | nil => exact hlast rfl rfl
        | cons e rest => exact hpair e rest rfl rfl
      exact closeChar_fronts [value] (.plain (by simp [backslash, not_or.mp free]) .nil) h

/-! ### Comments and operators -/

theorem lineComment_fronts : (lineComment c cs).Fronts c cs :=
  ⟨_, _, List.takeWhile_append_dropWhile.symm, rfl, rfl⟩

theorem blockLength?_le {n : Nat} (h : blockLength? cs = some n) : n ≤ cs.length := by
  fun_induction blockLength? cs generalizing n with
  | case1 => cases h
  | case2 rest =>
      obtain rfl := Option.some.inj h
      simp
  | case3 c cs _ ih =>
      obtain ⟨m, hm, rfl⟩ := Option.map_eq_some_iff.mp h
      exact Nat.succ_le_succ (ih hm)

theorem blockComment_fronts {open₁ open₂ : Char} (h : blockComment open₁ open₂ cs = .ok piece) :
    piece.Fronts open₁ (open₂ :: cs) := by
  unfold blockComment at h
  split at h
  · rename_i n hn
    obtain rfl := Except.ok.inj h
    refine ⟨open₂ :: cs.take n, cs.drop n, by simp, ?_, rfl⟩
    simp [blockLength?_le hn]
  · cases h

theorem operator_fronts (h : operator c cs = .ok piece) : piece.Fronts c cs := by
  unfold operator at h
  split at h
  · rename_i spelling kind hfind
    obtain rfl := Except.ok.inj h
    have front : spelling.toList.isPrefixOf (c :: cs) = true := by simpa using List.find?_some hfind
    obtain ⟨rest, hrest⟩ := List.isPrefixOf_iff_prefix.mp front
    have known := List.mem_of_find?_eq_some hfind
    have nonempty : ∀ entry ∈ Kind.operators, entry.1.toList ≠ [] ∧ entry.2 ∉ Kind.edited := by decide
    obtain ⟨hne, hkind⟩ := nonempty _ known
    cases hs : spelling.toList with
    | nil => exact absurd hs hne
    | cons d run =>
        rw [hs, List.cons_append] at hrest
        obtain ⟨rfl, rfl⟩ := List.cons.inj hrest
        refine ⟨run, rest, rfl, ?_, ?_⟩
        · rw [← String.length_toList, hs]
          rfl
        · exact Kind.shows_self hkind _
  · cases h

theorem token_fronts (h : token c cs = .ok piece) : piece.Fronts c cs := by
  unfold token at h
  split at h
  · exact Except.ok.inj h ▸ word_fronts
  · split at h
    · exact number_fronts h
    · split at h
      · exact string_fronts h
      · exact char_fronts h
      · exact Except.ok.inj h ▸ lineComment_fronts
      · exact blockComment_fronts h
      · exact operator_fronts h

/-! ### Faults -/

theorem stringBody_syntactic {stuck : Stuck} (h : stringBody cs = .error stuck) :
    stuck.fault.category = .syntactic := by
  fun_induction stringBody cs generalizing stuck with
  | case1 | case2 | case3 | case7 =>
      obtain rfl := Except.error.inj h
      rfl
  | case4 | case6 | case8 => cases h
  | case5 | case9 =>
      obtain rfl := Except.error.inj h
      rename_i hlater ih
      have syntactic := ih hlater
      exact syntactic

theorem closeChar_syntactic {value : Char} {n : Nat} {stuck : Stuck} (h : closeChar value n cs = .error stuck) :
    stuck.fault.category = .syntactic := by
  unfold closeChar at h
  split at h
  · cases h
    rfl
  · split at h <;> cases h
    rfl

theorem char_syntactic {stuck : Stuck} (h : char cs = .error stuck) : stuck.fault.category = .syntactic := by
  unfold char at h
  split at h
  · cases h
    rfl
  · cases h
    rfl
  · split at h
    · cases h
      rfl
    · exact closeChar_syntactic h
  · split at h
    · cases h
      rfl
    · exact closeChar_syntactic h

theorem number_syntactic {stuck : Stuck} (h : number c cs = .error stuck) : stuck.fault.category = .syntactic := by
  have hexadecimal_syntactic {x : Char} {ds : List Char} (h : hexadecimal x ds = .error stuck) :
      stuck.fault.category = .syntactic := by
    unfold hexadecimal at h
    dsimp only at h
    split at h <;> cases h
    rfl
  unfold number at h
  split at h
  · exact hexadecimal_syntactic h
  · exact hexadecimal_syntactic h
  · cases h

theorem token_syntactic {stuck : Stuck} (h : token c cs = .error stuck) : stuck.fault.category = .syntactic := by
  unfold token at h
  split at h
  · cases h
  · split at h
    · exact number_syntactic h
    · split at h
      · unfold string at h
        split at h <;> cases h
        have syntactic := stringBody_syntactic ‹stringBody cs = .error _›
        exact syntactic
      · exact char_syntactic h
      · cases h
      · unfold blockComment at h
        split at h <;> cases h
        rfl
      · unfold operator at h
        split at h <;> cases h
        rfl

end Scan
end Token
end OnePass
