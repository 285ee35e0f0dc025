import OnePass.Typing.Infer

/-!
Which values a slot takes. Apart from what its type accepts, a slot takes an integer literal that is in
its range, and an array literal if it takes each element.
-/

namespace OnePass
namespace Typing

/-- Is an integer literal in the range of the type, if it has one? -/
def literalFits? (target : Ty) (value : Expr) : Option Bool :=
  match value.literalValue?, target.kind?.bind (·.range?) with
  | some n, some (least, greatest) =>
    if target.isPointer then none else some (decide (least ≤ n ∧ n ≤ greatest))
  | _, _ => none

def suits (reg : Registry) (scope : ScopeId) (target : Ty) (value : Expr) :
    Except Diagnostic Bool := do
  return target.accepts (← infer reg scope value)

mutual

/-- Does a slot of type `target` take a value? -/
def coerces (reg : Registry) (scope : ScopeId) (target : Ty) (value : Expr) :
    Except Diagnostic Bool :=
  match literalFits? target value with
  | some fits => .ok fits
  | none =>
    match target, value with
    | .array element _ _, .array (e :: es) _ => coercesAll reg scope element (e :: es)
    | _, _ => suits reg scope target value

/-- Does a slot take each of the values? The first that it does not take settles it. -/
def coercesAll (reg : Registry) (scope : ScopeId) (target : Ty) :
    List Expr → Except Diagnostic Bool
  | [] => .ok true
  | e :: es => do
    if ← coerces reg scope target e then coercesAll reg scope target es else return false

end

def coercesEach (reg : Registry) (scope : ScopeId) :
    List Ty → List Expr → Except Diagnostic Bool
  | p :: ps, a :: as => do
    if ← coerces reg scope p a then coercesEach reg scope ps as else return false
  | _, _ => .ok true

/-- Do the parameters take the arguments? A variadic function takes more than it has parameters. -/
def argumentsFit (reg : Registry) (scope : ScopeId) (params : List Ty) (isVariadic : Bool)
    (args : List Expr) : Except Diagnostic Bool :=
  if args.length = params.length ∨ (isVariadic ∧ params.length ≤ args.length) then
    coercesEach reg scope params args
  else .ok false

end Typing
end OnePass
