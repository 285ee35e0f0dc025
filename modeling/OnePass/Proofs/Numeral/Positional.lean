import Mathlib.Data.Nat.Digits.Defs
import Mathlib.Tactic.Ring
import OnePass.Numeral.Integer

/-!
Integers as they are written and what they stand for. The value of digits is the sum of each times the power of the
base for its place, whatever their number; reading them one by one comes to just that, and the bound of 64 bits is
applied to the whole of it. So zeros in front change nothing, and no number that is too large passes for another.
-/

namespace OnePass
namespace Numeral

/-! ### Digits -/

def lowerDigits : List Char := "0123456789abcdef".toList

def upperDigits : List Char := "0123456789ABCDEF".toList

/-- What a digit stands for: its place among the digits, in either case. Any other character stands for sixteen. -/
def digitValue (c : Char) : Nat := min (lowerDigits.idxOf c) (upperDigits.idxOf c)

/-- The value of digits in a base, the highest place first. -/
def positional (base : Nat) (cs : List Char) : Nat := Nat.ofDigits base (cs.reverse.map digitValue)

theorem positional_cons (base : Nat) (c : Char) (cs : List Char) :
    positional base (c :: cs) = base ^ cs.length * digitValue c + positional base cs := by
  rw [positional, List.reverse_cons, List.map_append, Nat.ofDigits_append, List.length_map, List.length_reverse,
    List.map_singleton, Nat.ofDigits_singleton, Nat.add_comm]
  rfl

theorem mem_of_digitValue {c : Char} (h : digitValue c < 16) : c ∈ lowerDigits ++ upperDigits := by
  have length : lowerDigits.length = 16 ∧ upperDigits.length = 16 := by decide +kernel
  rw [List.mem_append]
  rcases min_lt_iff.mp h with lower | upper
  · exact .inl (List.idxOf_lt_length_iff.mp (length.1 ▸ lower))
  · exact .inr (List.idxOf_lt_length_iff.mp (length.2 ▸ upper))

/-- What holds of all digits by inspection. -/
theorem of_digitValue {p : Char → Bool} (h : (lowerDigits ++ upperDigits).all p = true) {c : Char}
    (hc : digitValue c < 16) : p c = true :=
  List.all_eq_true.mp h c (mem_of_digitValue hc)

theorem digit?_eq {c : Char} (h : digitValue c < 16) : digit? c = some (digitValue c) := by
  have table : (lowerDigits ++ upperDigits).all (fun c => digit? c == some (digitValue c)) = true := by decide +kernel
  exact beq_iff_eq.mp (of_digitValue table h)

/-! ### Reading digits -/

section Reading

variable {base : Nat} {cs : List Char} (hbase : base ≤ 16) (hcs : ∀ c ∈ cs, digitValue c < base)

include hbase hcs

/-- One digit after the other is added to what those before it come to, moved up by a place. -/
theorem digits?_eq (high : Nat) : digits? base high cs = some (high * base ^ cs.length + positional base cs) := by
  induction cs generalizing high with
  | nil => simp [digits?, positional]
  | cons c cs ih =>
      obtain ⟨hc, hlater⟩ := List.forall_mem_cons.mp hcs
      have digit : digit? c = some (digitValue c) := digit?_eq (Nat.lt_of_lt_of_le hc hbase)
      have moved : (high * base + digitValue c) * base ^ cs.length + positional base cs =
          high * base ^ (c :: cs).length + positional base (c :: cs) := by
        rw [positional_cons, List.length_cons]
        ring
      simp only [digits?, digit, if_pos hc, ih hlater, moved]

theorem natural?_eq (hne : cs ≠ []) : natural? base cs = some (positional base cs) := by
  obtain ⟨c, cs, rfl⟩ := List.exists_cons_of_ne_nil hne
  have digit : digitValue c < 16 := Nat.lt_of_lt_of_le (hcs c List.mem_cons_self) hbase
  have sign : c ≠ '+' := by
    rintro rfl
    exact absurd digit (by decide +kernel)
  have unsigned : natural? base (c :: cs) = digits? base 0 (c :: cs) := by
    unfold natural?
    split
    · rename_i heq
      exact absurd (List.cons.inj heq).1 sign
    · rfl
  rw [unsigned, digits?_eq hbase hcs, Nat.zero_mul, Nat.zero_add]

end Reading

theorem word?_some (n : Nat) : word? (some n) = if n < 2 ^ 64 then some n else none := by
  have bound : twoTo 64 = 2 ^ 64 := rfl
  simp [word?, Option.filter_some, bound]

/-! ### Integers -/

/-- The base that an integer is written in; the mark of a hexadecimal one is in either case. -/
inductive Radix where
  | decimal
  | hexadecimal (upper : Bool)

namespace Radix

def base : Radix → Nat
  | decimal => 10
  | hexadecimal _ => 16

/-- What stands in front of the digits. -/
def mark : Radix → List Char
  | decimal => []
  | hexadecimal upper => ['0', if upper then 'X' else 'x']

theorem base_le (r : Radix) : r.base ≤ 16 := by cases r <;> simp [base]

theorem valid_of_all {r : Radix} {cs : List Char} (h : cs.all (fun c => decide (digitValue c < r.base)) = true) :
    ∀ c ∈ cs, digitValue c < r.base :=
  fun c hc => of_decide_eq_true (List.all_eq_true.mp h c hc)

end Radix

/-- An integer as it may be written: at least one digit, any number of them zeros, and a suffix or none. -/
structure IntegerText where
  radix : Radix
  digits : List Char
  nonempty : digits ≠ []
  valid : ∀ c ∈ digits, digitValue c < radix.base
  suffix : Option Char
  known : ∀ c ∈ suffix, c = 'L' ∨ c = 'l'

namespace IntegerText

/-- What is written, without the suffix. -/
def lexeme (w : IntegerText) : List Char := w.radix.mark ++ w.digits

def chars (w : IntegerText) : List Char := w.lexeme ++ w.suffix.toList

/-- What the digits stand for. -/
def value (w : IntegerText) : Nat := positional w.radix.base w.digits

def long (w : IntegerText) : Bool := w.suffix.isSome

variable (w : IntegerText)

theorem digitValue_lt {c : Char} (hc : c ∈ w.digits) : digitValue c < 16 :=
  Nat.lt_of_lt_of_le (w.valid c hc) w.radix.base_le

theorem natural?_digits : natural? w.radix.base w.digits = some w.value :=
  natural?_eq w.radix.base_le w.valid w.nonempty

/-- Decimal digits are not taken for hexadecimal ones behind their mark. -/
theorem unmarked (h : w.radix = .decimal) {x : Char} {cs : List Char} (hx : x = 'x' ∨ x = 'X') :
    w.digits ≠ '0' :: x :: cs := by
  intro hdigits
  have valid := w.valid x (by simp [hdigits])
  rw [h] at valid
  rcases hx with rfl | rfl <;> exact absurd valid (by decide +kernel)

/-- An integer is read as its value, or not at all if that does not fit into 64 bits. -/
theorem integer?_lexeme :
    integer? (.ofList w.lexeme) = if w.value < 2 ^ 64 then some w.value else none := by
  rw [← word?_some, ← w.natural?_digits]
  unfold integer? lexeme
  rw [String.toList_ofList]
  cases hradix : w.radix with
  | hexadecimal upper => cases upper <;> rfl
  | decimal =>
      rw [Radix.mark, List.nil_append]
      split
      · rename_i hdigits
        exact absurd hdigits (w.unmarked hradix (.inl rfl))
      · rename_i hdigits
        exact absurd hdigits (w.unmarked hradix (.inr rfl))
      · rfl

end IntegerText

end Numeral
end OnePass
