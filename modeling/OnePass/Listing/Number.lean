import OnePass.Numeral.Shortest

/-!
Doubles as listings write them: with the fewest digits that read back, positionally from `0.0001` up
to below `1e16`, and with an exponent beyond that.
-/

namespace OnePass
namespace Numeral

/-- The bits from which on a number is written with an exponent. -/
def exponentFrom : Nat := Digits.bits ⟨1, 16⟩

/-- The bits below which a number other than zero is written with an exponent. -/
def exponentBelow : Nat := Digits.bits ⟨1, -4⟩

def zeros (n : Nat) : List Char := List.replicate n '0'

def Digits.scientific (d : Digits) : String :=
  let exponent := toString (d.exponent + (Nat.toDigits 10 d.digits).length - 1)
  match Nat.toDigits 10 d.digits with
  | [] | [_] => s!"{d.digits}e{exponent}"
  | first :: rest => String.ofList (first :: '.' :: rest) ++ "e" ++ exponent

/-- All digits in their places, with at least one on either side of the point. -/
def Digits.positional (d : Digits) : String :=
  let written := Nat.toDigits 10 d.digits
  let fraction := (-d.exponent).toNat
  let whole := written.take (written.length - fraction) ++ zeros d.exponent.toNat
  let behind := zeros (fraction - written.length) ++ written.drop (written.length - fraction)
  String.ofList ((if whole.isEmpty then ['0'] else whole) ++
    '.' :: (if behind.isEmpty then ['0'] else behind))

def magnitudeText (bits : Nat) : String :=
  if infinityBits < bits then "NaN"
  else if bits = infinityBits then "inf"
  else if bits = 0 then "0.0"
  else if exponentFrom ≤ bits ∨ bits < exponentBelow then (shortest bits).scientific
  else (shortest bits).positional

/-- The text of a double. What is not a number has no sign. -/
def doubleText (bits : UInt64) : String :=
  let n := bits.toNat
  let magnitude := n % twoTo 63
  if twoTo 63 ≤ n ∧ magnitude ≤ infinityBits then "-" ++ magnitudeText magnitude
  else magnitudeText magnitude

end Numeral
end OnePass
