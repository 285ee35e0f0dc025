import OnePass.Numeral.Power

/-!
The built-in types: their spellings, widths and, for integers, the values they hold.
-/

namespace OnePass

inductive Primitive where
  | i8 | i16 | i32 | i64
  | u8 | u16 | u32 | u64
  | f32 | f64
  | bool | char | string | void
  /-- The type of the literal `nil`. -/
  | nil
  /-- The element type of an array literal without elements. -/
  | unknown
deriving DecidableEq

namespace Primitive

def name : Primitive → String
  | i8 => "i8" | i16 => "i16" | i32 => "i32" | i64 => "i64"
  | u8 => "u8" | u16 => "u16" | u32 => "u32" | u64 => "u64"
  | f32 => "f32" | f64 => "f64"
  | bool => "bool" | char => "char" | string => "string" | void => "void"
  | nil => "nil" | unknown => "unknown"

/-- Every word that names a built-in type in a program. -/
def words : List (String × Primitive) :=
  [("i8", i8), ("i16", i16), ("i32", i32), ("i64", i64),
   ("u8", u8), ("u16", u16), ("u32", u32), ("u64", u64),
   ("f32", f32), ("f64", f64),
   ("int8", i8), ("int16", i16), ("int32", i32), ("int64", i64),
   ("uint8", u8), ("uint16", u16), ("uint32", u32), ("uint64", u64),
   ("float32", f32), ("float64", f64),
   ("bool", bool), ("char", char), ("string", string), ("void", void)]

def ofWord? (word : String) : Option Primitive := words.lookup word

/-- Width in bits; of a string, that of one of its bytes. -/
def width : Primitive → Nat
  | i8 | u8 | char | string => 8
  | i16 | u16 => 16
  | i32 | u32 | f32 => 32
  | i64 | u64 | f64 => 64
  | bool => 1
  | void | nil | unknown => 0

/-- Size in bytes; a truth value takes a whole one. -/
def byteSize : Primitive → Nat
  | bool => 1
  | p => p.width / 8

def isSigned : Primitive → Bool
  | i8 | i16 | i32 | i64 => true
  | _ => false

def isInteger : Primitive → Bool
  | i8 | i16 | i32 | i64 | u8 | u16 | u32 | u64 => true
  | _ => false

def isFloat : Primitive → Bool
  | f32 | f64 => true
  | _ => false

def range? (p : Primitive) : Option (Int × Int) :=
  if p.isInteger then
    if p.isSigned then some (-twoTo (p.width - 1), twoTo (p.width - 1) - 1)
    else some (0, twoTo p.width - 1)
  else none

def floatOfWidth (bits : Nat) : Primitive :=
  if bits > 32 then f64 else f32

end Primitive
end OnePass
