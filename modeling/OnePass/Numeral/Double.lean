import OnePass.Numeral.Integer

/-!
Decimal fractions read as doubles. The value of the text is kept as an exact quotient of natural numbers
and rounded once, to the nearest double and to the even one of two equally near.
-/

namespace OnePass
namespace Numeral

/-! ### Rounding a quotient -/

/-- A quotient rounded to the nearest natural number, to the even one of two equally near. -/
def roundDiv (num den : Nat) : Nat :=
  let q := num / den
  let r := num % den
  if 2 * r < den then q
  else if den < 2 * r then q + 1
  else if q % 2 = 0 then q else q + 1

/-- The quotient of `num` and `den`, divided by two to the power `e`, as two natural numbers. -/
def scale (num den : Nat) (e : Int) : Nat × Nat :=
  (num * twoTo (-e).toNat, den * twoTo e.toNat)

/-- The power of two that one unit of the significand of a double near `num / den` stands for. The
significand has 53 bits; the least power is that of the subnormal numbers. -/
def unitExponent (num den : Nat) : Int :=
  let e : Int := (num.log2 : Int) - den.log2 - 52
  let (n, d) := scale num den e
  max (if n / d < twoTo 52 then e - 1 else e) (-1074)

def infinityBits : Nat := 2047 * twoTo 52

/-- The bits of the double nearest to `num / den`. A significand that is rounded up to the next power
of two carries into the exponent, which is just what the next double is. -/
def nearestBits (num den : Nat) : Nat :=
  if num = 0 then 0
  else
    let e := unitExponent num den
    let (n, d) := scale num den e
    min infinityBits ((e + 1074).toNat * twoTo 52 + roundDiv n d)

/-! ### Texts -/

/-- A decimal fraction: `digits` times ten to the power `exponent`, where `count` digits were
written. -/
structure Decimal where
  digits : Nat
  exponent : Int
  count : Nat

/-- The bits of the double nearest to a decimal fraction. Beyond the powers of ten that doubles reach, the
quotient need not be computed. -/
def Decimal.bits (d : Decimal) : Nat :=
  if d.digits = 0 then 0
  else if 310 < d.exponent then infinityBits
  else if d.count + d.exponent < -330 then 0
  else nearestBits (d.digits * tenTo d.exponent.toNat) (tenTo (-d.exponent).toNat)

def isDecimalDigit (c : Char) : Bool := '0' ≤ c && c ≤ '9'

/-- The number that an exponent adds: none if there is nothing, otherwise a letter, perhaps a sign, and
digits. -/
def exponent? : List Char → Option Int
  | [] => some 0
  | c :: cs =>
    if c = 'e' ∨ c = 'E' then
      match cs with
      | '-' :: ds => (unsigned? 10 ds).map fun n => -(n : Int)
      | '+' :: ds => (unsigned? 10 ds).map fun n => (n : Int)
      | ds => (unsigned? 10 ds).map fun n => (n : Int)
    else none

/-- Digits with a point before, between or behind them, and an exponent. -/
def decimal? (cs : List Char) : Option Decimal :=
  let whole := cs.takeWhile isDecimalDigit
  let rest := cs.dropWhile isDecimalDigit
  let (fraction, tail) := match rest with
    | '.' :: rest => (rest.takeWhile isDecimalDigit, rest.dropWhile isDecimalDigit)
    | rest => ([], rest)
  match unsigned? 10 (whole ++ fraction), exponent? tail with
  | some digits, some e =>
    some ⟨digits, e - fraction.length, (whole ++ fraction).length⟩
  | _, _ => none

/-- The bits of a value without a sign; words are read in any case. -/
def magnitude? (cs : List Char) : Option Nat :=
  let word := String.ofList (cs.map Char.toLower)
  if word = "inf" ∨ word = "infinity" then some infinityBits
  else if word = "nan" then some (infinityBits + twoTo 51)
  else (decimal? cs).map (·.bits)

def double? (text : String) : Option UInt64 :=
  match text.toList with
  | '-' :: cs => (magnitude? cs).map fun n => UInt64.ofNat (twoTo 63 + n)
  | '+' :: cs => (magnitude? cs).map UInt64.ofNat
  | cs => (magnitude? cs).map UInt64.ofNat

end Numeral
end OnePass
