import OnePass.Proofs.Registry.Tidy
import OnePass.Token.Scan

/-!
Names as they are cut out of a text. The lexeme of an identifier is a run of letters, digits, `_` and `$`
that is not reserved. So what a program names is never spelt like a built-in type, and has no mark or
bracket in it that a type is written with.

No piece of a text is a sentinel: there is one, and it stands behind all tokens.
-/

namespace OnePass

/-- A word that may name something. -/
structure IsWord (w : String) : Prop where
  nonempty : w.toList ≠ []
  chars : ∀ c ∈ w.toList, Token.Scan.isWordChar c = true
  free : Token.Kind.ofWord? w = none

namespace Token

/-- If the token is an identifier, its lexeme is a word that may name something. -/
def Names (t : Token) : Prop := t.kind = .identifier → IsWord t.lexeme

/-- The kinds of words that are not keywords. -/
def Kind.isNominal : Kind → Bool
  | .identifier | .primitive => true
  | _ => false

/-- The kinds of numbers. -/
def Kind.numerals : List Kind := [.integer, .longInteger, .float, .doubleFloat]

theorem Kind.ofWord?_cases {w : String} {kind : Kind} (h : ofWord? w = some kind) :
    (w, kind) ∈ keywords ∨ kind = .primitive ∧ ∃ p, (w, p) ∈ Primitive.words := by
  unfold ofWord? at h
  split at h
  · rename_i found hfound
    obtain ⟨before, after, he, _⟩ := List.lookup_eq_some_iff.mp hfound
    obtain rfl := Option.some.inj h
    exact .inl (he ▸ by simp)
  · obtain ⟨p, hp, rfl⟩ := Option.map_eq_some_iff.mp h
    obtain ⟨before, after, he, _⟩ := List.lookup_eq_some_iff.mp hp
    exact .inr ⟨rfl, p, he ▸ by simp⟩

theorem Kind.mem_keywords_of_ofWord? {w : String} {kind : Kind} (h : ofWord? w = some kind) :
    kind = .primitive ∨ kind ∈ keywords.map (·.2) :=
  (ofWord?_cases h).symm.imp And.left List.mem_map_of_mem

theorem Kind.ofWord?_ne_identifier {w : String} : Kind.ofWord? w ≠ some .identifier := by
  intro h
  rcases mem_keywords_of_ofWord? h with hk | hk
  · cases hk
  · exact absurd hk (by decide)

namespace Scan

variable {c : Char} {cs : List Char} {piece : Piece}

theorem isWordChar_of_isWordStart (h : isWordStart c = true) : isWordChar c = true := by
  simp only [isWordStart, isWordChar, Char.isAlphanum, Bool.or_eq_true] at h ⊢
  tauto

theorem word_names (hc : isWordStart c = true) (hk : (word c cs).kind = .identifier) :
    IsWord (.ofList (word c cs).lexeme) where
  nonempty := by simp [word]
  chars := by
    intro d hd
    rw [String.toList_ofList] at hd
    rcases List.mem_cons.mp hd with rfl | hd
    · exact isWordChar_of_isWordStart hc
    · exact List.all_eq_true.mp List.all_takeWhile d hd
  free := by
    cases hw : Kind.ofWord? (String.ofList (c :: cs.takeWhile isWordChar)) with
    | none => exact hw
    | some kind =>
        simp only [word, hw, Option.getD_some] at hk
        exact absurd (hk ▸ hw) Kind.ofWord?_ne_identifier

theorem word_primitive (hk : (word c cs).kind = .primitive) :
    Primitive.ofWord? (.ofList (word c cs).lexeme) ≠ none := by
  unfold word Kind.ofWord? at hk
  dsimp only at hk
  split at hk
  · rename_i kind hkind
    obtain ⟨before, after, he, _⟩ := List.lookup_eq_some_iff.mp hkind
    have free : ∀ entry ∈ Kind.keywords, entry.2 ≠ .primitive := by decide
    have member : (String.ofList (c :: cs.takeWhile isWordChar), kind) ∈ Kind.keywords := by simp [he]
    exact absurd hk (free _ member)
  · intro none
    rw [show (word c cs).lexeme = c :: cs.takeWhile isWordChar from rfl] at none
    rw [none] at hk
    cases hk

theorem suffixed_kind {tail rest suffixes : List Char} {plain marked : Kind} {ks : List Kind}
    (hp : plain ∈ ks) (hm : marked ∈ ks) : (suffixed c tail rest suffixes plain marked).kind ∈ ks := by
  unfold suffixed
  split <;> assumption

theorem decimal_kind : (decimal c cs).kind ∈ Kind.numerals := by
  unfold decimal
  dsimp only
  split
  · split <;> exact suffixed_kind (by decide) (by decide)
  · exact suffixed_kind (by decide) (by decide)

theorem number_kind (h : number c cs = .ok piece) : piece.kind ∈ Kind.numerals := by
  have hexadecimal_kind {x : Char} {ds : List Char} (h : hexadecimal x ds = .ok piece) :
      piece.kind ∈ Kind.numerals := by
    unfold hexadecimal at h
    dsimp only at h
    split at h
    · cases h
    · exact Except.ok.inj h ▸ suffixed_kind (by decide) (by decide)
  unfold number at h
  split at h
  · exact hexadecimal_kind h
  · exact hexadecimal_kind h
  · exact Except.ok.inj h ▸ decimal_kind

theorem string_kind (h : string cs = .ok piece) : piece.kind = .string := by
  unfold string at h
  split at h <;> cases h
  rfl

theorem closeChar_kind {value : Char} {n : Nat} (h : closeChar value n cs = .ok piece) :
    piece.kind = .char := by
  unfold closeChar at h
  split at h
  · cases h
  · split at h <;> cases h
    rfl

theorem char_kind (h : char cs = .ok piece) : piece.kind = .char := by
  unfold char at h
  split at h
  · cases h
  · cases h
  · split at h
    · cases h
    · exact closeChar_kind h
  · split at h
    · cases h
    · exact closeChar_kind h

theorem operator_kind (h : operator c cs = .ok piece) : piece.kind ∈ Kind.operators.map (·.2) := by
  unfold operator at h
  split at h
  · rename_i spelling kind hfind
    exact Except.ok.inj h ▸ List.mem_map.mpr ⟨_, List.mem_of_find?_eq_some hfind, rfl⟩
  · cases h

theorem blockComment_kind {open₁ open₂ : Char} (h : blockComment open₁ open₂ cs = .ok piece) :
    piece.kind = .comment := by
  unfold blockComment at h
  split at h <;> cases h
  rfl

/-- The kinds of pieces that are no words. -/
def Kind.pieces : List Kind := [.string, .char, .comment] ++ Kind.numerals ++ Kind.operators.map (·.2)

/-- A piece is a word, or it is of a kind that words are not of. -/
theorem token_cases (h : token c cs = .ok piece) :
    isWordStart c = true ∧ piece = word c cs ∨ piece.kind ∈ Kind.pieces := by
  unfold token at h
  split at h
  · exact .inl ⟨‹_›, (Except.ok.inj h).symm⟩
  · right
    split at h
    · exact List.mem_append_left _ (List.mem_append_right _ (number_kind h))
    · split at h
      · exact string_kind h ▸ by decide
      · exact char_kind h ▸ by decide
      · obtain rfl := Except.ok.inj h
        have comment : Kind.comment ∈ Kind.pieces := by decide
        exact comment
      · exact blockComment_kind h ▸ by decide
      · exact List.mem_append_right _ (operator_kind h)

/-- Names and built-in types are words. -/
theorem token_eq_word (h : token c cs = .ok piece) (hk : piece.kind.isNominal = true) :
    isWordStart c = true ∧ piece = word c cs := by
  have none : ∀ k ∈ Kind.pieces, k.isNominal = false := by decide
  rcases token_cases h with hword | hpiece
  · exact hword
  · cases hk.symm.trans (none _ hpiece)

theorem token_ne_eof (h : token c cs = .ok piece) : piece.kind ≠ .eof := by
  rcases token_cases h with ⟨_, rfl⟩ | hpiece
  · dsimp only [word]
    cases hw : Kind.ofWord? (String.ofList (c :: cs.takeWhile isWordChar)) with
    | none => exact nofun
    | some kind =>
        rintro rfl
        rcases Kind.mem_keywords_of_ofWord? hw with hk | hk
        · cases hk
        · exact absurd hk (by decide)
  · exact fun eof => absurd (eof ▸ hpiece) (by decide)

/-- What is so of the sentinel and of each piece that is cut out is so of all tokens. -/
theorem tokens_forall {source : Source} {skip offset : Nat} {ts : List Token} {P : Token → Prop}
    (h : tokens source skip offset cs = .ok ts) (hsentinel : ∀ span, P (sentinel span))
    (hpiece : ∀ c cs piece span, token c cs = .ok piece → P ⟨piece.kind, .ofList piece.lexeme, span⟩) :
    ∀ t ∈ ts, P t := by
  fun_induction tokens source skip offset cs generalizing ts with
  | case1 =>
      obtain rfl := Except.ok.inj h
      exact List.forall_mem_singleton.mpr (hsentinel _)
  | case2 _ _ _ _ ih => exact ih h
  | case3 _ _ _ _ ih => exact ih h
  | case4 => cases h
  | case5 => cases h
  | case6 offset c cs _ piece hp _ later hlater =>
      rename_i ih
      obtain rfl := Except.ok.inj h
      exact List.forall_mem_cons.mpr ⟨hpiece _ _ _ _ hp, ih hlater⟩

/-- The sentinel stands behind all other tokens. -/
theorem tokens_sentinel {source : Source} {skip offset : Nat} {ts : List Token}
    (h : tokens source skip offset cs = .ok ts) :
    ∃ front span, ts = front ++ [sentinel span] ∧ ∀ t ∈ front, t.kind ≠ .eof := by
  fun_induction tokens source skip offset cs generalizing ts with
  | case1 =>
      obtain rfl := Except.ok.inj h
      exact ⟨[], _, rfl, nofun⟩
  | case2 _ _ _ _ ih => exact ih h
  | case3 _ _ _ _ ih => exact ih h
  | case4 => cases h
  | case5 => cases h
  | case6 offset c cs _ piece hp _ later hlater =>
      rename_i ih
      obtain ⟨front, span, rfl, hfront⟩ := ih hlater
      obtain rfl := Except.ok.inj h
      exact ⟨_ :: front, span, rfl, List.forall_mem_cons.mpr ⟨token_ne_eof hp, hfront⟩⟩

theorem tokens_names {source : Source} {skip offset : Nat} {ts : List Token}
    (h : tokens source skip offset cs = .ok ts) : ∀ t ∈ ts, t.Names := by
  refine tokens_forall h (fun _ => nofun) fun c cs piece span hp hk => ?_
  obtain ⟨hc, rfl⟩ := token_eq_word hp (congrArg Kind.isNominal hk)
  exact word_names hc hk

end Scan
end Token

theorem Source.tokens_names {source : Source} {ts : List Token} (h : source.tokens = .ok ts) :
    ∀ t ∈ ts, t.Names :=
  Token.Scan.tokens_names h

theorem Source.tokens_sentinel {source : Source} {ts : List Token} (h : source.tokens = .ok ts) :
    ∃ front span, ts = front ++ [Token.sentinel span] ∧ ∀ t ∈ front, t.kind ≠ .eof :=
  Token.Scan.tokens_sentinel h

/-- A token for a built-in type is the name of one. -/
theorem Source.tokens_primitive {source : Source} {ts : List Token} (h : source.tokens = .ok ts) :
    ∀ t ∈ ts, t.kind = .primitive → Primitive.ofWord? t.lexeme ≠ none := by
  refine Token.Scan.tokens_forall h (fun _ => nofun) fun c cs piece span hp hk => ?_
  obtain ⟨_, rfl⟩ := Token.Scan.token_eq_word hp (congrArg Token.Kind.isNominal hk)
  exact Token.Scan.word_primitive hk

/-! ### Names of a program -/

namespace Named

variable {n : String}

theorem nonempty (h : Named Token.Names n) : n.toList ≠ [] := by
  cases h with
  | word h =>
      obtain ⟨t, ht, hk, rfl⟩ := h
      exact (ht hk).nonempty
  | within => simp [Name.separator]

theorem chars (h : Named Token.Names n) : ∀ c ∈ n.toList, Token.Scan.isWordChar c = true := by
  induction h with
  | word h =>
      obtain ⟨t, ht, hk, rfl⟩ := h
      exact (ht hk).chars
  | within _ _ iha ihb =>
      intro c hc
      simp only [String.toList_append, List.mem_append, or_assoc] at hc
      rcases hc with hc | hc | hc
      · exact iha c hc
      · have separator : Name.separator.toList.all Token.Scan.isWordChar = true := by decide
        exact List.all_eq_true.mp separator c hc
      · exact ihb c hc

/-- Built-in types have names of their own. Only the element type of an empty array goes by a name that is
free. -/
theorem ne_name (h : Named Token.Names n) {k : Primitive} (hk : k ≠ .unknown) : n ≠ k.name := by
  rintro rfl
  generalize hname : k.name = name at h
  cases h with
  | word h =>
      obtain ⟨t, ht, hi, rfl⟩ := h
      have free := (ht hi).free
      rw [← hname] at free
      revert free hk
      cases k <;> decide
  | @within a b _ _ =>
      have underscore : '_' ∈ k.name.toList := by simp [hname, Name.separator]
      revert underscore
      cases k <;> decide

end Named

end OnePass
