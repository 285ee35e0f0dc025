import OnePass.Ty.Primitive

/-!
Types as they occur in a program. Flags belong to one occurrence of a type, so the same struct may be
a pointer in one place and a value in another. `Ty.agrees` is the compatibility used by
declarations, overloads and returns: it looks at neither flags, stored widths nor array lengths,
except that `nil` agrees with whatever is optional.
-/

namespace OnePass

/-- What one occurrence of a type adds to it. -/
structure Flags where
  pointer : Bool := false
  reference : Bool := false
  mutable : Bool := false
  optional : Bool := false
  global : Bool := false
  variadic : Bool := false
deriving DecidableEq

namespace Flags

def plain : Flags := {}

def union (a b : Flags) : Flags where
  pointer := a.pointer || b.pointer
  reference := a.reference || b.reference
  mutable := a.mutable || b.mutable
  optional := a.optional || b.optional
  global := a.global || b.global
  variadic := a.variadic || b.variadic

def diff (a b : Flags) : Flags where
  pointer := a.pointer && !b.pointer
  reference := a.reference && !b.reference
  mutable := a.mutable && !b.mutable
  optional := a.optional && !b.optional
  global := a.global && !b.global
  variadic := a.variadic && !b.variadic

def contains (a b : Flags) : Bool := a.union b == a

/-- The flags as a number, one bit each from `pointer` up. -/
def bits (f : Flags) : Nat :=
  f.pointer.toNat + 2 * f.reference.toNat + 4 * f.mutable.toNat + 8 * f.optional.toNat
    + 16 * f.global.toNat + 32 * f.variadic.toNat

def ofBits (n : Nat) : Flags where
  pointer := n.testBit 0
  reference := n.testBit 1
  mutable := n.testBit 2
  optional := n.testBit 3
  global := n.testBit 4
  variadic := n.testBit 5

/-- The flags that say how a variable is bound, not what it holds. -/
def binding : Flags := { mutable := true, global := true }

end Flags

inductive Ty where
  /-- A built-in type, with the width it is stored in. -/
  | primitive (kind : Primitive) (width : Nat) (flags : Flags)
  /-- A struct or enum, by its internal name. -/
  | named (name : String) (flags : Flags)
  /-- Zero stands for a length that is not given. -/
  | array (element : Ty) (length : Nat) (flags : Flags)
  | function (params : List Ty) (result : Ty) (flags : Flags)

namespace Ty

def ofPrimitive (p : Primitive) : Ty := primitive p p.width .plain

def bool : Ty := ofPrimitive .bool

def unknown : Ty := ofPrimitive .unknown

def flags : Ty → Flags
  | primitive _ _ f | named _ f | array _ _ f | function _ _ f => f

def setFlags (f : Flags) : Ty → Ty
  | primitive k w _ => primitive k w f
  | named n _ => named n f
  | array e l _ => array e l f
  | function ps r _ => function ps r f

def withFlags (t : Ty) (f : Flags) : Ty := t.setFlags (t.flags.union f)

def withoutFlags (t : Ty) (f : Flags) : Ty := t.setFlags (t.flags.diff f)

/-- The type as the value of an expression: how a variable was bound no longer matters. -/
def rvalue (t : Ty) : Ty := t.withoutFlags .binding

def isPointer (t : Ty) : Bool := t.flags.pointer

def isOptional (t : Ty) : Bool := t.flags.optional

def isMutable (t : Ty) : Bool := t.flags.mutable

def pointerTo (t : Ty) : Ty := t.withFlags { pointer := true }

def pointee (t : Ty) : Ty := t.withoutFlags { pointer := true }

def kind? : Ty → Option Primitive
  | primitive k _ _ => some k
  | _ => none

def width : Ty → Nat
  | primitive _ w _ => w
  | _ => 0

def isKind (t : Ty) (p : Primitive) : Bool := t.kind? == some p

def isVoid (t : Ty) : Bool := t.isKind .void && !t.isPointer

def isNil (t : Ty) : Bool := t.isKind .nil

def isInteger (t : Ty) : Bool := t.kind?.any (·.isInteger)

def isFloat (t : Ty) : Bool := t.kind?.any (·.isFloat)

def structName? : Ty → Option String
  | named n _ => some n
  | _ => none

/-- One side is `nil` and the other may be. -/
def nilAgrees (a b : Ty) : Bool :=
  (a.isNil && b.isOptional) || (b.isNil && a.isOptional)

mutual

def agrees (a b : Ty) : Bool :=
  (match a, b with
    | primitive k _ _, primitive l _ _ => k == l
    | named n _, named m _ => n == m
    | array s _ _, array t _ _ => agrees s t
    | function ps r _, function qs q _ => agreesAll ps qs && agrees r q
    | _, _ => false)
  || nilAgrees a b

def agreesAll : List Ty → List Ty → Bool
  | [], [] => true
  | a :: as, b :: bs => agrees a b && agreesAll as bs
  | _, _ => false

end

/-- An optional value is laid out as a truth value followed by the payload. -/
def optionalLayout? (t : Ty) : Option (Ty × Ty) :=
  if t.isOptional then
    some (bool, t.withoutFlags { optional := true, mutable := true, global := true })
  else none

def element? (t : Ty) : Option Ty :=
  match t with
  | array e _ _ => some e
  | _ =>
    if t.isPointer then some t.pointee
    else if t.isKind .string then some (ofPrimitive .char)
    else none

end Ty
end OnePass
