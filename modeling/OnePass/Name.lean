import OnePass.Ty.Written

/-!
Names of declared things. A thing in a module is known by the segments of its path joined with
`__`; a function is known by that and the types of its parameters, which tells overloads apart.
-/

namespace OnePass
namespace Name

def separator : String := "__"

def qualified (segments : List String) : String := join separator segments

/-- A path as a program writes it. -/
def written (segments : List String) : String := join "::" segments

/-- What a function is known by. The entry point and foreign functions are found from outside, so
they go by the bare name. -/
def overload (qualifiedName : String) (params : List Ty) (isExtern : Bool) : String :=
  if isExtern || qualifiedName == "main" then qualifiedName
  else s!"{qualifiedName}(" ++ join "," (Ty.texts params) ++ ")"

def signature (name : String) (params : List Ty) : String :=
  s!"{name}(" ++ join ", " (Ty.texts params) ++ ")"

def hasSeparator : List Char → Bool
  | '_' :: '_' :: _ => true
  | _ :: cs => hasSeparator cs
  | [] => false

/-- Writes each separator, from the left, as `::`. -/
def pathChars : List Char → List Char
  | '_' :: '_' :: cs => ':' :: ':' :: pathChars cs
  | c :: cs => c :: pathChars cs
  | [] => []

def path (qualifiedName : String) : String := String.ofList (pathChars qualifiedName.toList)

end Name
end OnePass
