import OnePass.Numeral.Power

/-!
Natural numbers as they are written: digits of a base, most significant first, of which there must be
at least one. A plus sign may stand in front.
-/

namespace OnePass
namespace Numeral

def digit? (c : Char) : Option Nat :=
  if '0' ≤ c ∧ c ≤ '9' then some (c.toNat - '0'.toNat)
  else if 'a' ≤ c ∧ c ≤ 'f' then some (c.toNat - 'a'.toNat + 10)
  else if 'A' ≤ c ∧ c ≤ 'F' then some (c.toNat - 'A'.toNat + 10)
  else none

/-- The value of digits that stand behind others of value `high`. -/
def digits? (base : Nat) : (high : Nat) → List Char → Option Nat
  | high, [] => some high
  | high, c :: cs =>
    match digit? c with
    | some d => if d < base then digits? base (high * base + d) cs else none
    | none => none

def unsigned? (base : Nat) : List Char → Option Nat
  | [] => none
  | cs => digits? base 0 cs

def natural? (base : Nat) : List Char → Option Nat
  | '+' :: cs => unsigned? base cs
  | cs => unsigned? base cs

def word? (n : Option Nat) : Option Nat := n.filter (· < twoTo 64)

/-- The value of an integer literal: hexadecimal behind `0x`, decimal otherwise. -/
def integer? (text : String) : Option Nat :=
  match text.toList with
  | '0' :: 'x' :: cs | '0' :: 'X' :: cs => word? (natural? 16 cs)
  | cs => word? (natural? 10 cs)

/-- The value of an array length, which is decimal. -/
def length? (text : String) : Option Nat := word? (natural? 10 text.toList)

end Numeral
end OnePass
