import OnePass.Diagnostic.Fault

/-!
Two relations between types that need not be equal: the type that two operands are unified to, and
whether a value may be stored without conversion.
-/

namespace OnePass
namespace Ty

/-- Of two built-in types: the wider one if both are integers or both floats, a float as wide as the
wider one if they are mixed. Of two equally wide, the first. -/
def dominantPrimitive (lhs rhs : Ty) (a b : Primitive) : Except Fault Ty :=
  if (a.isInteger && b.isInteger) || (a.isFloat && b.isFloat) then
    .ok (if lhs.width < rhs.width then rhs.rvalue else lhs.rvalue)
  else if (a.isFloat && b.isInteger) || (a.isInteger && b.isFloat) then
    .ok (ofPrimitive (.floatOfWidth (max lhs.width rhs.width)))
  else if a = b then .ok lhs.rvalue
  else .error (.incompatiblePrimitives lhs rhs)

/-- The type that the operands of an arithmetic operator are unified to. A pointer wins over what is
none. -/
def dominant (lhs rhs : Ty) : Except Fault Ty :=
  if lhs.isPointer && !rhs.isPointer then .ok lhs.rvalue
  else if rhs.isPointer && !lhs.isPointer then .ok rhs.rvalue
  else match lhs, rhs with
    | named .., primitive .. | primitive .., named .. => .error (.primitiveWithNamed lhs rhs)
    | named a _, named b _ => if a = b then .ok lhs.rvalue else .error (.noDominantType lhs rhs)
    | primitive a _ _, primitive b _ _ => dominantPrimitive lhs rhs a b
    | _, _ => .error (.noDominantType lhs rhs)

/-- Is `actual` a built-in type of the same sort as `target` and strictly narrower? -/
def widens (target actual : Ty) : Bool :=
  match target.kind?, actual.kind? with
  | some t, some a =>
    !target.isPointer && !actual.isPointer
      && ((t.isInteger && a.isInteger) || (t.isFloat && a.isFloat))
      && actual.width < target.width
  | _, _ => false

/-- May a value of type `actual` be stored where `target` is expected? -/
def accepts (target actual : Ty) : Bool :=
  target.agrees actual || target.widens actual

end Ty
end OnePass
