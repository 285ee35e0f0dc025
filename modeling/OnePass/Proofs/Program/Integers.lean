import OnePass.Proofs.Grammar.Initial
import OnePass.Proofs.Numeral.Positional
import OnePass.Proofs.Ty.Printed

/-!
Integers from their digits to the tree. An integer is cut out of a text as one token, and where it is all of an
expression it is read as a literal of its value, or it is out of range. Without a suffix, the type of the literal is
the narrowest of three that holds the value.
-/

namespace OnePass

open Token (Kind)

/-! ### Types -/

/-- The number is in the range of an integer type. -/
def Primitive.Holds (p : Primitive) (n : Int) : Prop :=
  ∃ least greatest, p.range? = some (least, greatest) ∧ least ≤ n ∧ n ≤ greatest

/-- The number of bits that a type has for the size of a number. -/
def Primitive.magnitude (p : Primitive) : Nat := if p.isSigned then p.width - 1 else p.width

namespace Literal

/-- The types that an integer without a suffix may have. -/
def integerTypes : List Primitive := [.i32, .i64, .u64]

theorem holds_iff {p : Primitive} (hp : p ∈ integerTypes) (n : Nat) : p.Holds n ↔ n < 2 ^ p.magnitude := by
  simp only [integerTypes, List.mem_cons, List.not_mem_nil, or_false] at hp
  rcases hp with rfl | rfl | rfl
  all_goals
    simp [Primitive.Holds, Primitive.range?, Primitive.magnitude, Primitive.isInteger, Primitive.isSigned,
      Primitive.width, twoTo]
    omega

theorem type_integer {n : Nat} (h : n < 2 ^ 64) :
    ∃ p ∈ integerTypes, (integer n false).type = .ofPrimitive p ∧ n < 2 ^ p.magnitude ∧
      ∀ q ∈ integerTypes, n < 2 ^ q.magnitude → p.magnitude ≤ q.magnitude := by
  have magnitudes : Primitive.i32.magnitude = 31 ∧ Primitive.i64.magnitude = 63 ∧ Primitive.u64.magnitude = 64 :=
    ⟨rfl, rfl, rfl⟩
  by_cases small : n < 2 ^ 31
  · refine ⟨.i32, by decide, if_pos small, small, ?_⟩
    simp [integerTypes, magnitudes]
  by_cases medium : n < 2 ^ 63
  · refine ⟨.i64, by decide, (if_neg small).trans (if_pos medium), medium, ?_⟩
    simpa [integerTypes, magnitudes] using small
  · refine ⟨.u64, by decide, (if_neg small).trans (if_neg medium), h, ?_⟩
    simp only [integerTypes, List.forall_mem_cons, magnitudes]
    exact ⟨fun h => absurd h small, fun h => absurd h medium, fun _ => Nat.le_refl _, List.forall_mem_nil _⟩

/-- The type of an integer says what it is and has no marks. -/
theorem type_integer_plain (n : Nat) (long : Bool) :
    (integer n long).type.rvalue = (integer n long).type ∧ Grammar.isUninformative (integer n long).type = false := by
  unfold type
  cases long with
  | true => exact ⟨rfl, rfl⟩
  | false =>
      dsimp only
      split
      · exact ⟨rfl, rfl⟩
      · split <;> exact ⟨rfl, rfl⟩

/-- An integer of 64 bits has the narrowest type that holds it: what else holds it holds all natural numbers that
this one does. -/
theorem type_narrowest {n : Nat} (h : n < 2 ^ 64) :
    ∃ p ∈ integerTypes, (integer n false).type = .ofPrimitive p ∧ p.Holds n ∧
      ∀ q ∈ integerTypes, q.Holds n → ∀ m : Nat, p.Holds m → q.Holds m := by
  obtain ⟨p, hp, htype, hholds, hnarrow⟩ := type_integer h
  refine ⟨p, hp, htype, (holds_iff hp n).mpr hholds, fun q hq hn m hm => ?_⟩
  have wider : p.magnitude ≤ q.magnitude := hnarrow q hq ((holds_iff hq n).mp hn)
  rw [holds_iff hp] at hm
  rw [holds_iff hq]
  exact Nat.lt_of_lt_of_le hm (Nat.pow_le_pow_right (by decide) wider)

end Literal

/-! ### Tokens -/

namespace Numeral.IntegerText

open Token.Scan

variable (w : IntegerText) {rest : List Char}

def kind : Kind := if w.long then .longInteger else .integer

def glyph : Glyph := ⟨w.kind, .ofList w.lexeme⟩

/-- Behind an integer there is neither a word nor a point. -/
def Alone (rest : List Char) : Prop := ∀ c ∈ rest.head?, isWordChar c = false ∧ c ≠ '.'

theorem isDigit_of_digitValue {c : Char} (h : digitValue c < 10) : c.isDigit = true := by
  have table : (lowerDigits ++ upperDigits).all (fun c => !decide (digitValue c < 10) || c.isDigit) = true := by
    decide +kernel
  simpa [h] using of_digitValue table (Nat.lt_trans h (by decide))

theorem isHexDigit_of_digitValue {c : Char} (h : digitValue c < 16) : isHexDigit c = true := by
  have table : (lowerDigits ++ upperDigits).all isHexDigit = true := by decide +kernel
  exact of_digitValue table h

theorem isInteger : Kind.IsInteger w.lexeme := by
  obtain ⟨c, cs, hdigits⟩ := List.exists_cons_of_ne_nil w.nonempty
  unfold lexeme
  cases hradix : w.radix with
  | decimal =>
      have digits : ∀ d ∈ w.digits, d.isDigit = true := fun d hd =>
        isDigit_of_digitValue (by simpa [hradix, Radix.base] using w.valid d hd)
      rw [hdigits] at digits ⊢
      exact .decimal digits
  | hexadecimal upper =>
      have digits : ∀ d ∈ w.digits, isHexDigit d = true := fun d hd => isHexDigit_of_digitValue (w.digitValue_lt hd)
      rw [hdigits] at digits ⊢
      exact .hexadecimal (by cases upper <;> decide) digits

theorem isWordChar_of_isHexDigit {c : Char} (h : isHexDigit c = true) : isWordChar c = true := by
  have alphanum : c.isAlphanum = true := by
    simp only [isHexDigit, Bool.or_eq_true, Bool.and_eq_true, decide_eq_true_eq] at h
    rcases h with (digit | ⟨low, high⟩) | ⟨low, high⟩
    · exact Bool.or_eq_true_iff.mpr (.inr digit)
    · have lower : c.isLower = true :=
        Bool.and_eq_true_iff.mpr ⟨decide_eq_true low, decide_eq_true (UInt32.le_trans high (by decide))⟩
      exact Bool.or_eq_true_iff.mpr (.inl (Bool.or_eq_true_iff.mpr (.inr lower)))
    · have upper : c.isUpper = true := decide_eq_true ⟨low, UInt32.le_trans high (by decide)⟩
      exact Bool.or_eq_true_iff.mpr (.inl (Bool.or_eq_true_iff.mpr (.inl upper)))
  rw [isWordChar, alphanum]
  rfl

theorem Alone.stopsInteger (h : Alone rest) : StopsInteger rest := by
  intro c hc
  obtain ⟨hword, hpoint⟩ := h c hc
  have hex : isHexDigit c ≠ true := fun hex => absurd (isWordChar_of_isHexDigit hex) (by simp [hword])
  have digit : c.isDigit ≠ true := fun digit => hex (by rw [isHexDigit, digit]; rfl)
  have other {x : Char} (hx : isWordChar x = true) : c ≠ x := by
    rintro rfl
    rw [hx] at hword
    cases hword
  exact ⟨Bool.eq_false_of_not_eq_true digit, Bool.eq_false_of_not_eq_true hex, hpoint, other rfl, other rfl⟩

/-- An integer is cut out of a text as one token. The suffix is in its range but not in its lexeme. -/
theorem comes (h : Alone rest) : Comes w.kind w.lexeme w.chars rest := by
  unfold kind long chars
  cases hsuffix : w.suffix with
  | none =>
      rw [Option.toList_none, List.append_nil]
      -- What follows is not taken for a suffix, since a suffix is part of a word.
      refine integer_comes w.isInteger h.stopsInteger fun c hc hs => ?_
      have word := (h c hc).1
      simp only [List.mem_cons, List.not_mem_nil, or_false] at hs
      rcases hs with rfl | rfl <;> cases word
  | some c => exact longInteger_comes w.isInteger (by simpa using w.known c hsuffix)

/-- The diagnostic for an integer that does not fit into 64 bits. -/
def outOfRange (source : Source) (span : Span) : Diagnostic :=
  .located (.integerOutOfRange (.ofList w.lexeme)) source span

theorem literal_eq {source : Source} {t : Token} (ht : t.glyph = w.glyph) :
    Grammar.literal source t =
      if w.value < 2 ^ 64 then .ok (.integer w.value w.long) else .error (w.outOfRange source t.span) := by
  have hlexeme : t.lexeme = .ofList w.lexeme := congrArg Glyph.lexeme ht
  have read (long : Bool) : Grammar.integerLiteral source t long =
      if w.value < 2 ^ 64 then .ok (.integer w.value long) else .error (w.outOfRange source t.span) := by
    rw [Grammar.integerLiteral, hlexeme, w.integer?_lexeme]
    by_cases fits : w.value < 2 ^ 64
    · rw [if_pos fits, if_pos fits]
    · rw [if_neg fits, if_neg fits, outOfRange]
  have hkind : t.kind = w.kind := congrArg Glyph.kind ht
  unfold Grammar.literal
  rw [hkind, kind]
  cases w.long with
  | true => exact read true
  | false => exact read false

theorem isLiteral_kind : w.kind.isLiteral = true := by
  unfold kind
  cases w.long <;> rfl

end Numeral.IntegerText

/-! ### Files -/

namespace Numeral.IntegerText

open Grammar

variable (w : IntegerText) {keyword : Kind} {name : String}

/-- A file that declares a variable and gives it the integer. -/
def declaration (keyword : Kind) (name : String) : String :=
  keyword.text ++ " " ++ name ++ " = " ++ .ofList w.chars ++ ";"

def declarationGlyphs (keyword : Kind) (name : String) : List Glyph :=
  [⟨keyword, keyword.text⟩, ⟨.identifier, name⟩, .mark .assign, w.glyph, .mark .semicolon]

theorem declaration_lexes (hkeyword : keyword ∈ [Kind.kwLet, .kwConst]) (hname : IsIdentifier name) :
    Token.Scan.Lexes (w.declaration keyword name).toList (w.declarationGlyphs keyword name ++ [⟨.eof, ""⟩]) := by
  have semicolon : Token.Scan.Lexes [';'] [.mark .semicolon, ⟨.eof, ""⟩] := .token [] rfl rfl .nil
  have alone : Alone [';'] := by
    rintro _ ⟨⟩
    decide
  have integer := Token.Scan.Lexes.comes (w.comes alone) semicolon
  have value : Token.Scan.Lexes (' ' :: '=' :: ' ' :: (w.chars ++ [';']))
      (.mark .assign :: w.glyph :: [.mark .semicolon, ⟨.eof, ""⟩]) :=
    .blank rfl (.token [] rfl rfl (.blank rfl integer))
  have stops (rest : List Char) : Token.Scan.StopsWord (' ' :: rest) := by
    rintro _ ⟨⟩
    decide
  have named := Token.Scan.Lexes.comes (hname.comes (stops _)) value
  have known : ∀ k ∈ [Kind.kwLet, .kwConst], Kind.ofWord? k.text = some k := by decide
  have whole := Token.Scan.Lexes.comes (Token.Scan.reserved_comes (known keyword hkeyword) (stops _)) (.blank rfl named)
  have text : (w.declaration keyword name).toList =
      keyword.text.toList ++ ' ' :: (name.toList ++ ' ' :: '=' :: ' ' :: (w.chars ++ [';'])) := by
    simp [declaration]
  rw [String.ofList_toList, String.ofList_toList] at whole
  rw [text]
  exact whole

/-- What is read of such a file: the five tokens of the declaration. -/
theorem exists_tokens_declaration (hkeyword : keyword ∈ [Kind.kwLet, .kwConst]) (hname : IsIdentifier name)
    (id : Nat) (path : String) :
    ∃ tokens k x mark t semicolon, Source.tokens ⟨id, path, w.declaration keyword name⟩ = .ok tokens ∧
      (Region.ofTokens ⟨id, path, w.declaration keyword name⟩ tokens).ahead = [k, x, mark, t, semicolon] ∧
      k.kind = keyword ∧ x.glyph = ⟨.identifier, name⟩ ∧ mark.kind = .assign ∧ t.glyph = w.glyph ∧
      semicolon.kind = .semicolon := by
  have plain : ∀ g ∈ w.declarationGlyphs keyword name, g.kind ≠ .eof ∧ g.kind ≠ .comment := by
    have word : ∀ k ∈ [Kind.kwLet, .kwConst], k ≠ .eof ∧ k ≠ .comment := by decide
    have number : w.kind ≠ .eof ∧ w.kind ≠ .comment := by
      unfold kind
      cases w.long <;> decide
    simp only [declarationGlyphs, List.forall_mem_cons]
    exact ⟨word keyword hkeyword, by decide, by decide, number, by decide, List.forall_mem_nil _⟩
  obtain ⟨tokens, htokens, hglyphs⟩ : ∃ tokens, Source.tokens ⟨id, path, w.declaration keyword name⟩ = .ok tokens ∧ _ :=
    (w.declaration_lexes hkeyword hname).region plain rfl
  obtain ⟨k, _, hahead, hk, hglyphs⟩ := List.map_eq_cons_iff.mp hglyphs
  obtain ⟨x, _, rfl, hx, hglyphs⟩ := List.map_eq_cons_iff.mp hglyphs
  obtain ⟨mark, _, rfl, hmark, hglyphs⟩ := List.map_eq_cons_iff.mp hglyphs
  obtain ⟨t, _, rfl, ht, hglyphs⟩ := List.map_eq_cons_iff.mp hglyphs
  obtain ⟨semicolon, rfl, hsemicolon⟩ := List.map_eq_singleton_iff.mp hglyphs
  exact ⟨tokens, k, x, mark, t, semicolon, htokens, hahead, congrArg Glyph.kind hk, hx, congrArg Glyph.kind hmark, ht,
    congrArg Glyph.kind hsemicolon⟩

section Read

variable {ctx : Context} {r : Region} {k x mark t semicolon : Token} {rest : List Token}

/-- Where an integer is all of an expression, it is read as a literal of its value. -/
theorem expressionAt_accepted (hfits : w.value < 2 ^ 64) (hdepth : ctx.depth < maxDepth) (hahead : r.ahead = t :: rest)
    (ht : t.glyph = w.glyph) (hends : Formula.Ends rest) :
    ∃ span l, expressionAt ctx r = pure (.literal (.integer w.value w.long) span, l) ∧
      l.ahead = Region.settle rest := by
  have hkind : t.kind.isLiteral = true := (congrArg (·.kind.isLiteral) ht).trans w.isLiteral_kind
  have hvalue : literal ctx.source t = .ok (.integer w.value w.long) := by rw [w.literal_eq ht, if_pos hfits]
  exact expressionAt_literal hdepth hahead hkind hvalue hends

theorem expressionAt_refused (hlarge : ¬w.value < 2 ^ 64) (hdepth : ctx.depth < maxDepth)
    (hahead : r.ahead = t :: rest) (ht : t.glyph = w.glyph) :
    expressionAt ctx r = throw (w.outOfRange ctx.source t.span) := by
  have hkind : t.kind.isLiteral = true := (congrArg (·.kind.isLiteral) ht).trans w.isLiteral_kind
  have hvalue : literal ctx.source t = .error (w.outOfRange ctx.source t.span) := by rw [w.literal_eq ht, if_neg hlarge]
  exact expressionAt_throw hdepth hahead hkind hvalue

theorem settle_integer (ht : t.glyph = w.glyph) : Region.settle (t :: rest) = t :: rest := by
  have hkind : t.kind = w.kind := congrArg Glyph.kind ht
  refine settle_cons fun hcomment => ?_
  have literal := w.isLiteral_kind
  rw [← hkind, hcomment] at literal
  cases literal

section Statement

variable (hdepth : ctx.depth + 1 < maxDepth) (hahead : r.ahead = [k, x, mark, t, semicolon])
  (hkeyword : k.kind ∈ [Kind.kwLet, .kwConst]) (hname : x.kind = .identifier) (hmark : mark.kind = .assign)
  (ht : t.glyph = w.glyph)

include hdepth hahead hkeyword hname hmark ht

theorem statementAt_accepted {reg : Registry} (hfits : w.value < 2 ^ 64) (hsemicolon : semicolon.kind = .semicolon)
    (hnew : ∀ x, ∃ reg', reg.defineVariable ctx.scope x = (.ok (), reg')) :
    ∃ decl span l reg', (statementAt ctx r).run.run reg = (.ok (.variable decl, l), reg') ∧ l.ahead = [] ∧
      decl.name = x.lexeme ∧ decl.value = some (.literal (.integer w.value w.long) span) ∧
      decl.type = (Literal.integer w.value w.long).type.withFlags
        { mutable := k.kind == .kwLet, global := reg.declares ctx.scope } := by
  have hends : Formula.Ends [semicolon] := by
    intro u hu
    rw [settle_cons (by rw [hsemicolon]; decide), List.head?_cons, Option.mem_some_iff] at hu
    rw [← hu, hsemicolon]
    decide
  obtain ⟨l, hl, hstatement⟩ := statementAt_variable (Nat.lt_of_succ_lt hdepth) hahead hkeyword
  rw [settle_cons (by rw [hname]; decide)] at hl
  obtain ⟨hrvalue, hknown⟩ := Literal.type_integer_plain w.value w.long
  let inner : Context := { ctx with depth := ctx.depth + 1 }
  have hinner : inner.depth < maxDepth := hdepth
  have reads (q : Region) (hq : q.ahead = Region.settle [t, semicolon]) :
      ∃ value m, expressionAt inner q = pure (value, m) ∧ m.ahead = [semicolon] ∧
        ∃ span, value = .literal (.integer w.value w.long) span := by
    rw [w.settle_integer ht] at hq
    obtain ⟨span, m, hread, hm⟩ := w.expressionAt_accepted hfits hinner hq ht hends
    exact ⟨_, m, hread, hm.trans (settle_cons (by rw [hsemicolon]; decide)), span, rfl⟩
  have infers (value : Expr) (hvalue : ∃ span, value = .literal (.integer w.value w.long) span) :
      Typing.infer reg ctx.scope value = .ok (Literal.integer w.value w.long).type := by
    obtain ⟨span, rfl⟩ := hvalue
    rw [Typing.infer]
  obtain ⟨decl, _, m, reg', hread, hm, hx, hvalue, ⟨span, rfl⟩, htype⟩ :=
    variableStmt_initial hl hname hmark .inherited reads hsemicolon infers hknown hnew
  refine ⟨decl, span, l.left m, reg', ?_, hm, hx, hvalue, ?_⟩
  · rw [hstatement]
    exact map_run hread
  · rw [htype, hrvalue]

theorem statementAt_refused (hlarge : ¬w.value < 2 ^ 64) :
    statementAt ctx r = throw (w.outOfRange ctx.source t.span) := by
  obtain ⟨l, hl, hstatement⟩ := statementAt_variable (Nat.lt_of_succ_lt hdepth) hahead hkeyword
  rw [settle_cons (by rw [hname]; decide)] at hl
  rw [hstatement, variableStmt_throw hl hname hmark]
  · rfl
  · intro q hq
    rw [w.settle_integer ht] at hq
    exact w.expressionAt_refused hlarge hdepth hq ht

end Statement

end Read

section Source

theorem begins_declaration : ∀ k ∈ [Kind.kwLet, .kwConst], k ≠ .kwPackage ∧ k ≠ .semicolon := by decide

variable (hkeyword : keyword ∈ [Kind.kwLet, .kwConst]) (hname : IsIdentifier name) (id : Nat) (path : String)

include hkeyword hname

theorem read_accepted (hfits : w.value < 2 ^ 64) :
    ∃ p reg decl span, Registry.empty.read ⟨id, path, w.declaration keyword name⟩ = (.ok p, reg) ∧
      p.body.stmts = [.variable decl] ∧ decl.name = name ∧
      decl.value = some (.literal (.integer w.value w.long) span) ∧
      decl.type = (Literal.integer w.value w.long).type.withFlags { mutable := keyword == .kwLet, global := true } := by
  obtain ⟨tokens, k, x, mark, t, semicolon, htokens, hahead, rfl, hx, hmark, ht, hsemicolon⟩ :=
    w.exists_tokens_declaration hkeyword hname id path
  let ctx : Context := { source := ⟨id, path, w.declaration k.kind name⟩ }
  have hdepth : ctx.depth + 1 < maxDepth := show 1 < maxDepth by decide
  have hnew (x : Variable) : ∃ reg, Registry.empty.defineVariable ctx.scope x = (.ok (), reg) := ⟨_, rfl⟩
  obtain ⟨decl, span, l, reg, hread, hl, hnamed, hvalue, htype⟩ :=
    w.statementAt_accepted hdepth hahead hkeyword (congrArg Glyph.kind hx) hmark ht hfits hsemicolon hnew
  -- A literal has no calls in it.
  have hsettle : (Stmt.variable decl).mapCalls (reg.settleCall ctx.source) = .ok (.variable decl) := by
    cases decl
    subst hvalue
    rfl
  obtain ⟨hpackage, hother⟩ := begins_declaration k.kind hkeyword
  obtain ⟨p, hunit, hstmts⟩ := unit_single hahead hpackage hother hread hl hsettle
  refine ⟨p, reg, decl, span, ?_, hstmts, hnamed.trans (congrArg Glyph.lexeme hx), hvalue, htype⟩
  rw [Registry.read, htokens]
  exact hunit

theorem read_refused (hlarge : ¬w.value < 2 ^ 64) :
    ∃ d, Registry.empty.read ⟨id, path, w.declaration keyword name⟩ = (.error d, .empty) ∧
      d.category = .syntactic ∧ d.message = "Integer literal '" ++ .ofList w.lexeme ++ "' is out of range" := by
  obtain ⟨tokens, k, x, mark, t, semicolon, htokens, hahead, rfl, hx, hmark, ht, hsemicolon⟩ :=
    w.exists_tokens_declaration hkeyword hname id path
  let ctx : Context := { source := ⟨id, path, w.declaration k.kind name⟩ }
  have hdepth : ctx.depth + 1 < maxDepth := show 1 < maxDepth by decide
  have hread := w.statementAt_refused hdepth hahead hkeyword (congrArg Glyph.kind hx) hmark ht hlarge
  obtain ⟨hpackage, hother⟩ := begins_declaration k.kind hkeyword
  refine ⟨w.outOfRange ctx.source t.span, ?_, rfl, rfl⟩
  rw [Registry.read, htokens]
  change (unit _ _ : Parse Program).run.run _ = _
  rw [unit_throw hahead hpackage hother hread]
  rfl

end Source

/-- An integer has the value that its digits have in their base. It is cut out of any text as one token, and where it
is all of an expression it is read as a literal of that value, long if it has the suffix, when the value has 64 bits,
and refused otherwise. So is it in a file that gives it to a variable. Without the suffix, the type of the literal
is the narrowest that holds the value. -/
theorem reads_as_value :
    (∀ source offset rest, Alone rest → Token.Scan.tokens source 0 offset (w.chars ++ rest) =
      (Token.Scan.tokens source 0 (offset + byteCount w.chars) rest).map
        (⟨w.kind, .ofList w.lexeme, .ofLength offset (byteCount w.chars) source.id⟩ :: ·)) ∧
    (∀ (ctx : Context) (r : Region) (t : Token) (rest : List Token), ctx.depth < maxDepth → r.ahead = t :: rest →
      t.glyph = w.glyph → Formula.Ends rest →
      if w.value < 2 ^ 64 then
        ∃ span l, expressionAt ctx r = pure (.literal (.integer w.value w.long) span, l) ∧
          l.ahead = Region.settle rest
      else expressionAt ctx r = throw (w.outOfRange ctx.source t.span)) ∧
    (∀ id path keyword name, keyword ∈ [Kind.kwLet, .kwConst] → IsIdentifier name →
      if w.value < 2 ^ 64 then
        ∃ p reg decl span, Registry.empty.read ⟨id, path, w.declaration keyword name⟩ = (.ok p, reg) ∧
          p.body.stmts = [.variable decl] ∧ decl.name = name ∧
          decl.value = some (.literal (.integer w.value w.long) span) ∧
          decl.type =
            (Literal.integer w.value w.long).type.withFlags { mutable := keyword == .kwLet, global := true }
      else
        ∃ d, Registry.empty.read ⟨id, path, w.declaration keyword name⟩ = (.error d, .empty) ∧
          d.category = .syntactic ∧ d.message = "Integer literal '" ++ .ofList w.lexeme ++ "' is out of range") ∧
    (w.value < 2 ^ 64 → w.long = false →
      ∃ p ∈ Literal.integerTypes, (Literal.integer w.value w.long).type = .ofPrimitive p ∧ p.Holds w.value ∧
        ∀ q ∈ Literal.integerTypes, q.Holds w.value → ∀ m : Nat, p.Holds m → q.Holds m) := by
  refine ⟨fun source offset rest alone => (w.comes alone).tokens source offset, ?_, ?_, ?_⟩
  · intro ctx r t rest hdepth hahead ht hends
    split
    · next fits => exact w.expressionAt_accepted fits hdepth hahead ht hends
    · next large => exact w.expressionAt_refused large hdepth hahead ht
  · intro id path keyword name hkeyword hname
    split
    · next fits => exact w.read_accepted hkeyword hname id path fits
    · next large => exact w.read_refused hkeyword hname id path large
  · intro fits short
    rw [short]
    exact Literal.type_narrowest fits

/-- The greatest integer, with a zero in front and the suffix. -/
def greatest : IntegerText :=
  ⟨.hexadecimal true, '0' :: .replicate 16 'f', List.cons_ne_nil _ _, Radix.valid_of_all (by decide +kernel), some 'l',
    fun _ hc => .inr (Option.some.inj hc).symm⟩

/-- The least integer that is out of range. -/
def tooGreat : IntegerText :=
  ⟨.decimal, ['1', '8', '4', '4', '6', '7', '4', '4', '0', '7', '3', '7', '0', '9', '5', '5', '1', '6', '1', '6'],
    List.cons_ne_nil _ _, Radix.valid_of_all (by decide +kernel), none, fun _ hc => absurd hc (Option.not_mem_none _)⟩

/-- The two sides of the limit, as files. -/
theorem reads_as_value_limits :
    (∃ p reg decl span, Registry.empty.read ⟨0, "a", "let a = 0X0ffffffffffffffffl;"⟩ = (.ok p, reg) ∧
      p.body.stmts = [.variable decl] ∧ decl.value = some (.literal (.integer 18446744073709551615 true) span)) ∧
    ∃ d, Registry.empty.read ⟨0, "a", "let a = 18446744073709551616;"⟩ = (.error d, .empty) ∧
      d.message = "Integer literal '18446744073709551616' is out of range" := by
  have hname : IsIdentifier "a" := ⟨⟨by decide, List.all_eq_true.mp (by decide), by decide⟩, by rintro _ ⟨⟩; decide⟩
  have accepted := greatest.reads_as_value.2.2.1 0 "a" .kwLet "a" (by decide) hname
  have refused := tooGreat.reads_as_value.2.2.1 0 "a" .kwLet "a" (by decide) hname
  have hgreatest : greatest.value = 18446744073709551615 := by decide +kernel
  have htooGreat : tooGreat.value = 18446744073709551616 := by decide +kernel
  rw [hgreatest, if_pos (by decide)] at accepted
  rw [htooGreat, if_neg (by decide)] at refused
  obtain ⟨p, reg, decl, span, hread, hstmts, _, hvalue, _⟩ := accepted
  obtain ⟨d, hfailed, _, hmessage⟩ := refused
  have hfirst : greatest.declaration .kwLet "a" = "let a = 0X0ffffffffffffffffl;" := by decide +kernel
  have hsecond : tooGreat.declaration .kwLet "a" = "let a = 18446744073709551616;" := by decide +kernel
  rw [hfirst] at hread
  rw [hsecond] at hfailed
  exact ⟨⟨p, reg, decl, span, hread, hstmts, hvalue⟩, d, hfailed, hmessage⟩

end Numeral.IntegerText

end OnePass
