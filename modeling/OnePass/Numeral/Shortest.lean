import OnePass.Numeral.Double

/-!
The shortest decimal of a double: the fewest digits that read back as it, and of those the nearest to
its value. On a grid of powers of ten only the two neighbours of the value need to be tried, since
whatever lies further away reads back only if the neighbour on its side does.
-/

namespace OnePass
namespace Numeral

/-- The number `digits` times ten to the power `exponent`. -/
structure Digits where
  digits : Nat
  exponent : Int
deriving DecidableEq

def Digits.bits (d : Digits) : Nat :=
  nearestBits (d.digits * tenTo d.exponent.toNat) (tenTo (-d.exponent).toNat)

/-- The same number with no zero at the end of its digits. At most `fuel` zeros are taken away. -/
def Digits.trim (d : Digits) : (fuel : Nat) → Digits
  | 0 => d
  | fuel + 1 =>
    if d.digits ≠ 0 ∧ d.digits % 10 = 0 then trim ⟨d.digits / 10, d.exponent + 1⟩ fuel else d

/-- The value of the finite double with these bits, as a quotient. -/
def quotient (bits : Nat) : Nat × Nat :=
  let field := bits / twoTo 52
  let fraction := bits % twoTo 52
  if field = 0 then (fraction, twoTo 1074)
  else ((twoTo 52 + fraction) * twoTo (field - 1075), twoTo (1075 - field))

/-- The power of ten above a positive double: the least that is greater than it. In units of ten to the
power -324, each positive double has a whole part, whose digits are counted. -/
def tenAbove (num den : Nat) : Int :=
  ((Nat.toDigits 10 (num * tenTo 324 / den)).length : Int) - 324

/-- The nearer neighbour of `num / den` among the multiples of ten to the power `exponent`, if one of
them reads back; a neighbour that does not is passed over, and the upper one wins a tie. -/
def onGrid? (bits num den : Nat) (exponent : Int) : Option Digits :=
  let n := num * tenTo (-exponent).toNat
  let d := den * tenTo exponent.toNat
  let lower : Digits := ⟨n / d, exponent⟩
  let upper : Digits := ⟨n / d + 1, exponent⟩
  if upper.bits = bits ∧ (lower.bits ≠ bits ∨ (2 * (n / d) + 1) * d ≤ 2 * n) then some upper
  else if lower.bits = bits then some lower
  else none

/-- No double needs more digits than this. -/
def maxDigits : Nat := 17

def shortest (bits : Nat) : Digits :=
  let (num, den) := quotient bits
  let top := tenAbove num den
  let grids := (List.range maxDigits).map fun count : Nat => top - (count + 1)
  match grids.findSome? (onGrid? bits num den) with
  | some d => d.trim maxDigits
  | none => ⟨num * tenTo 1074 / den, -1074⟩

end Numeral
end OnePass
