import OnePass.Grammar.Expressions
import OnePass.Proofs.Region.Carve

/-!
Formulas: expressions of literals and operators, without places. A formula is printed with parentheses around
those operands alone that are looser than their position allows. The tiers, from the loosest: 0 for logical
operators, 1 for comparisons, 2 for sums, 3 for products, 4 for powers, 5 for operators in front of an operand,
6 for literals. All group to the left but powers.
-/

namespace OnePass

open Token (Kind)

/-- A token, but for where it stands. -/
structure Glyph where
  kind : Kind
  lexeme : String
deriving DecidableEq

def Token.glyph (t : Token) : Glyph := ⟨t.kind, t.lexeme⟩

/-- An operator or a delimiter. -/
def Glyph.mark (kind : Kind) : Glyph := ⟨kind, kind.text⟩

/-! ### Literals -/

/-- A literal and a way to write it. -/
structure Spelling where
  glyph : Glyph
  value : Literal
  isLiteral : glyph.kind.isLiteral = true
  reads : ∀ source (t : Token), t.glyph = glyph → Grammar.literal source t = .ok value

/-- What a literal says does not depend on where it stands. -/
theorem Grammar.literal_eq_ok {source source' : Source} {t t' : Token} {value : Literal}
    (h : literal source t = .ok value) (hglyph : t'.glyph = t.glyph) : literal source' t' = .ok value := by
  obtain ⟨kind, lexeme, span⟩ := t
  obtain ⟨_, _, span'⟩ := t'
  cases hglyph
  have integer {long : Bool} (h : integerLiteral source ⟨kind, lexeme, span⟩ long = .ok value) :
      integerLiteral source' ⟨kind, lexeme, span'⟩ long = .ok value := by
    unfold integerLiteral at h ⊢
    dsimp only at h ⊢
    cases hvalue : Numeral.integer? lexeme with
    | none => simp [hvalue] at h
    | some _ => rwa [hvalue] at h
  have float {double : Bool} (h : floatLiteral source ⟨kind, lexeme, span⟩ double = .ok value) :
      floatLiteral source' ⟨kind, lexeme, span'⟩ double = .ok value := by
    unfold floatLiteral at h ⊢
    dsimp only at h ⊢
    cases hvalue : Numeral.double? lexeme with
    | none => simp [hvalue] at h
    | some _ => rwa [hvalue] at h
  unfold literal at h ⊢
  cases kind with
  | integer | longInteger => exact integer h
  | float | doubleFloat => exact float h
  | _ => exact h

/-- Any token of a literal that is read gives a spelling. -/
def Spelling.ofToken {source : Source} {t : Token} {value : Literal} (hkind : t.kind.isLiteral = true)
    (h : Grammar.literal source t = .ok value) : Spelling :=
  ⟨t.glyph, value, hkind, fun _ _ hglyph => Grammar.literal_eq_ok h hglyph⟩

/-! ### Operators -/

/-- An operator in front of an operand that is no place. -/
inductive PrefixOp where
  | not | negate | complement | dereference | addressOf
deriving DecidableEq

namespace PrefixOp

def op : PrefixOp → UnaryOp
  | not => .not
  | negate => .negate
  | complement => .complement
  | dereference => .dereference
  | addressOf => .addressOf

def kind : PrefixOp → Kind
  | not => .bang
  | negate => .minus
  | complement => .tilde
  | dereference => .star
  | addressOf => .ampersand

end PrefixOp

namespace BinaryOp

def kind : BinaryOp → Kind
  | arithmetic .add => .plus
  | arithmetic .sub => .minus
  | arithmetic .mul => .star
  | arithmetic .div => .slash
  | arithmetic .mod => .percent
  | arithmetic .pow => .starStar
  | comparison .eq => .equal
  | comparison .ne => .notEqual
  | comparison .lt => .less
  | comparison .le => .lessEqual
  | comparison .gt => .greater
  | comparison .ge => .greaterEqual
  | logical .and => .andAnd
  | logical .or => .orOr

def tier : BinaryOp → Nat
  | logical _ => 0
  | comparison _ => 1
  | arithmetic .add | arithmetic .sub => 2
  | arithmetic .mul | arithmetic .div | arithmetic .mod => 3
  | arithmetic .pow => 4

/-- The loosest tier that may stand on the left. -/
def left : BinaryOp → Nat
  | arithmetic .pow => 5
  | op => op.tier

/-- The loosest tier that may stand on the right. -/
def right : BinaryOp → Nat
  | arithmetic .pow => 4
  | op => op.tier + 1

variable {op : BinaryOp}

theorem eq_pow (h : ¬op.tier < 4) : op = arithmetic .pow := by
  rcases op with (_ | _ | _ | _ | _ | _) | op | op <;> first | rfl | exact absurd (by simp [tier]) h

theorem left_eq (h : op.tier < 4) : op.left = op.tier := by
  unfold left
  split
  · exact absurd h (by decide)
  · rfl

theorem right_eq (h : op.tier < 4) : op.right = op.tier + 1 := by
  unfold right
  split
  · exact absurd h (by decide)
  · rfl

end BinaryOp

/-! ### Formulas -/

inductive Formula where
  | literal (spelling : Spelling)
  | unary (op : PrefixOp) (operand : Formula)
  | binary (op : BinaryOp) (lhs rhs : Formula)

namespace Formula

def tier : Formula → Nat
  | literal _ => 6
  | unary .. => 5
  | binary op _ _ => op.tier

/-- The expression is the formula, with places. -/
def Is : Formula → Expr → Prop
  | literal s, e => ∃ span, e = .literal s.value span
  | unary op f, e => ∃ operand span, e = .unary op.op operand span ∧ f.Is operand
  | binary op f g, e => ∃ lhs rhs span, e = .binary op lhs rhs span ∧ f.Is lhs ∧ g.Is rhs

/-- The formula in a position for the given tier, where it is printed as `gs`. -/
def enclose (f : Formula) (position : Nat) (gs : List Glyph) : List Glyph :=
  if f.tier < position then .mark .leftParen :: gs ++ [.mark .rightParen] else gs

def print : Formula → List Glyph
  | literal s => [s.glyph]
  | unary op f => .mark op.kind :: f.enclose 5 f.print
  | binary op f g => f.enclose op.left f.print ++ .mark op.kind :: g.enclose op.right g.print

/-- How deep parentheses and operators in front of operands stand in each other, where the formula itself is at
a given depth in its position. -/
def deepen (f : Formula) (position depth : Nat) : Nat :=
  if f.tier < position then depth + 1 else depth

def depth : Formula → Nat
  | literal _ => 0
  | unary _ f => f.deepen 5 f.depth + 1
  | binary op f g => max (f.deepen op.left f.depth) (g.deepen op.right g.depth)

/-! ### What is printed -/

section Print

variable {f : Formula} {position : Nat} {ts : List Token} {gs : List Glyph}

/-- Kinds of tokens that a formula may begin with. -/
def opens : Kind → Bool
  | .bang | .minus | .tilde | .star | .ampersand | .leftParen => true
  | k => k.isLiteral

/-- The glyphs begin as a formula may. -/
def Begins (gs : List Glyph) : Prop := ∃ x gs', gs = x :: gs' ∧ opens x.kind = true

theorem ne_of_opens {k k' : Kind} (h : opens k = true) (h' : opens k' = false) : k ≠ k' := by
  rintro rfl
  rw [h] at h'
  cases h'

theorem spelt_enclose (h : ts.map Token.glyph = f.enclose position gs) :
    (f.tier < position ∧ ∃ o inner c, ts = o :: (inner ++ [c]) ∧ o.kind = .leftParen ∧
      inner.map Token.glyph = gs ∧ c.kind = .rightParen) ∨
      position ≤ f.tier ∧ ts.map Token.glyph = gs := by
  unfold enclose at h
  split at h
  · obtain ⟨o, ts, rfl, ho, h⟩ := List.map_eq_cons_iff.mp h
    obtain ⟨inner, closing, rfl, hinner, h⟩ := List.map_eq_append_iff.mp h
    obtain ⟨c, rfl, hc⟩ := List.map_eq_singleton_iff.mp h
    exact .inl ⟨‹_›, o, inner, c, rfl, congrArg Glyph.kind ho, hinner, congrArg Glyph.kind hc⟩
  · exact .inr ⟨Nat.le_of_not_lt ‹_›, h⟩

theorem Begins.enclose (h : Begins gs) : Begins (f.enclose position gs) := by
  unfold Formula.enclose
  split
  · exact ⟨_, _, rfl, rfl⟩
  · exact h

theorem print_begins (f : Formula) : Begins f.print := by
  induction f with
  | literal s =>
      refine ⟨s.glyph, [], rfl, ?_⟩
      have := s.isLiteral
      unfold opens
      split <;> simp_all
  | unary op f ih => exact ⟨_, _, rfl, by cases op <;> rfl⟩
  | binary op f g ihf ihg =>
      obtain ⟨x, gs, hprint, hopens⟩ : Begins (f.enclose op.left f.print) := ihf.enclose
      exact ⟨x, _, by rw [print, hprint]; rfl, hopens⟩

end Print

/-! ### Parentheses -/

/-- Parentheses are closed where they are opened: to find the end of one that is open one may skip the
tokens. -/
def Balanced (ts : List Token) : Prop :=
  ∀ depth tail, Region.splitClosing .leftParen .rightParen depth (ts ++ tail) =
    (Region.splitClosing .leftParen .rightParen depth tail).map fun (inside, c, rest) =>
      (ts ++ inside, c, rest)

namespace Balanced

variable {ts ts' : List Token} {t o c : Token}

theorem append (h : Balanced ts) (h' : Balanced ts') : Balanced (ts ++ ts') := by
  intro depth tail
  rw [List.append_assoc, h, h', Option.map_map]
  simp [Function.comp_def]

theorem single (ho : t.kind ≠ .leftParen) (hc : t.kind ≠ .rightParen) : Balanced [t] := by
  intro depth tail
  rw [List.singleton_append, Region.splitClosing_cons, if_neg ho, if_neg hc]
  rfl

theorem parens (ho : o.kind = .leftParen) (h : Balanced ts) (hc : c.kind = .rightParen) :
    Balanced (o :: (ts ++ [c])) := by
  intro depth tail
  have hco : c.kind ≠ .leftParen := hc ▸ by decide
  rw [List.cons_append, Region.splitClosing_cons, if_pos ho, List.append_assoc, h, List.singleton_append,
    Region.splitClosing_cons, if_neg hco, if_pos hc, Option.map_map, Option.map_map]
  simp [Function.comp_def, Region.passing]

/-- Parentheses around balanced tokens are found. -/
theorem carveParens {r : Region} {rest : List Token} (h : Balanced ts) (hahead : r.ahead = o :: (ts ++ c :: rest))
    (ho : o.kind = .leftParen) (hc : c.kind = .rightParen)
    (hsettled : Region.settle (ts ++ c :: rest) = ts ++ c :: rest) :
    ∃ l l' : Left r, r.carveParens = .ok (l, l') ∧ l.ahead = Region.settle ts ∧
      l'.ahead = Region.settle rest := by
  have hbehind : (r.behind o (ts ++ c :: rest)).ahead = ts ++ c :: rest := hsettled
  have hsplit : Region.splitClosing .leftParen .rightParen 0 (ts ++ c :: rest) = some (ts, c, rest) := by
    have hco : c.kind ≠ .leftParen := hc ▸ by decide
    rw [h, Region.splitClosing_cons, if_neg hco, if_pos hc]
    simp
  have henclosed : r.enclosed .leftParen .rightParen =
      (.ok ((r.behind o (ts ++ c :: rest)).window ts (c :: rest)),
        (r.behind o (ts ++ c :: rest)).past ts c rest) := by
    have hhead : r.headIs .leftParen = true := by simp [Region.headIs, Region.head, hahead, ho]
    unfold Region.enclosed Region.expect Region.expectOr
    rw [if_pos hhead]
    simp only [Region.next, hahead, hbehind, hsplit]
  obtain ⟨l, l', hcarve, hl, hl'⟩ := Region.carve_eq_ok henclosed
  exact ⟨l, l', hcarve, by rw [hl]; rfl, by rw [hl']; rfl⟩

theorem enclose {f : Formula} {position : Nat} (h : ∀ ts, ts.map Token.glyph = f.print → Balanced ts)
    (hts : ts.map Token.glyph = f.enclose position f.print) : Balanced ts := by
  rcases spelt_enclose hts with ⟨_, o, inner, c, rfl, ho, hinner, hc⟩ | ⟨_, hts⟩
  · exact parens ho (h inner hinner) hc
  · exact h ts hts

end Balanced

theorem balanced (f : Formula) {ts : List Token} (hts : ts.map Token.glyph = f.print) : Balanced ts := by
  induction f generalizing ts with
  | literal s =>
      obtain ⟨t, rfl, ht⟩ := List.map_eq_singleton_iff.mp hts
      have hkind : t.kind.isLiteral = true := (congrArg (·.kind.isLiteral) ht).trans s.isLiteral
      exact .single (fun h => by rw [h] at hkind; cases hkind) (fun h => by rw [h] at hkind; cases hkind)
  | unary op f ih =>
      obtain ⟨t, ts, rfl, ht, hts⟩ := List.map_eq_cons_iff.mp hts
      have hkind : t.kind = op.kind := congrArg Glyph.kind ht
      have hop : Balanced [t] := .single (hkind ▸ by cases op <;> decide) (hkind ▸ by cases op <;> decide)
      exact hop.append (.enclose (fun _ => ih) hts)
  | binary op f g ihf ihg =>
      obtain ⟨left, right, rfl, hleft, hright⟩ := List.map_eq_append_iff.mp hts
      obtain ⟨t, right, rfl, ht, hright⟩ := List.map_eq_cons_iff.mp hright
      have hkind : t.kind = op.kind := congrArg Glyph.kind ht
      have hop : Balanced [t] := by
        refine .single (hkind ▸ ?_) (hkind ▸ ?_) <;>
          rcases op with (_ | _ | _ | _ | _ | _) | (_ | _ | _ | _ | _ | _) | (_ | _) <;> decide
      exact (Balanced.enclose (fun _ => ihf) hleft).append (hop.append (.enclose (fun _ => ihg) hright))

end Formula
end OnePass
