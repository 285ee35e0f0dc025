import OnePass.Numeral.Integer
import OnePass.Region.Step
import OnePass.Resolution

/-!
Types as they are written: perhaps `*` or `&`, a base, any number of `[]`, perhaps `?`. The base is a
built-in type, the path of a struct or enum, or a function type. Names are looked up as they are read,
so an unknown one is a fault.
-/

namespace OnePass
namespace Grammar

open Token (Kind)

/-- One more segment of a path. A `::` that no name follows is left. -/
def segment (segments : List String) (r : Region) :
    Except Diagnostic (Option (Step r (List String))) := do
  let some (_, r₁) := r.accept? .colonColon | return none
  let some (t, r₂) := r₁.accept? .identifier | return none
  let segments := segments ++ [t.lexeme]
  if segments.length > maxSegments then throw (r₂.fail .tooManySegments)
  return some (segments, r₂)

def path (r : Region) (what : String) : Except Diagnostic (Step r (List String × Span)) := do
  let (first, r₁) ← r.takeNamed .identifier what
  let (segments, r₂) ← r₁.loop r.size_le [first.lexeme] fun r₀ _ segments => segment segments r₀
  return ((segments, r₂.spanFrom first.span), r₂)

structure TypeSetting where
  reg : Registry
  source : Source
  scope : ScopeId
  /-- A struct whose fields are being read. -/
  declaring : Option String := none

def typeMark (r : Region) : Rest r Flags :=
  match r.accept? .star, r.accept? .ampersand with
  | some (_, rest), _ => ({ pointer := true }, rest.kept)
  | none, some (_, rest) => ({ reference := true }, rest.kept)
  | none, none => (.plain, .whole r)

def primitiveType (r : Region) : Except Diagnostic (Step r Ty) := do
  let (t, rest) ← r.take .primitive
  match Primitive.ofWord? t.lexeme with
  | some p => return (.ofPrimitive p, rest)
  | none => Typing.fault (.unknownPrimitive t.lexeme)

def namedType (s : TypeSetting) (r : Region) (what : String) : Except Diagnostic (Step r Ty) := do
  let ((segments, span), rest) ← path r what
  let name := Name.qualified segments
  match (s.reg.structName? s.scope s.declaring name).or (s.reg.markerName? s.scope name) with
  | some internal => return (.named internal .plain, rest)
  | none => throw (.located (.undefinedStruct (Name.written segments)) s.source span)

abbrev TypesBelow (r : Region) :=
  (r' : Region) → r'.size < r.size → (what : String) → Except Diagnostic (Step r' Ty)

/-- A function type: `(A, B) -> R`. -/
def functionType (r : Region) (inner : TypesBelow r) : Except Diagnostic (Step r Ty) := do
  let (params, r₁) ← r.carveParens
  let types ← params.items r.size_le fun r₀ h₀ _ => inner r₀ h₀ "parameter type"
  let (_, r₂) ← r₁.takeNamed .arrow "'->' in function type"
  let (result, r₃) ← r₂.read (inner r₂ r₂.shorter "return type after '->'")
  return (.function types result .plain, r₃)

/-- The mark of an array behind its element type: `[]` or `[n]`. -/
def arraySuffix (s : TypeSetting) (element : Ty) (r : Region) :
    Except Diagnostic (Option (Step r Ty)) := do
  let some (_, r₁) := r.accept? .leftBracket | return none
  if let some (_, r₂) := r₁.accept? .rightBracket then
    return some (.array element 0 .plain, r₂)
  let some (t, r₂) := r₁.accept? .integer | return none
  let some (_, r₃) := r₂.accept? .rightBracket | return none
  match Numeral.length? t.lexeme with
  | some length => return some (.array element length .plain, r₃)
  | none => throw (.located .malformedLength s.source t.span)

/-- What `*`, `&`, `[]` and `?` are put to. -/
def baseType (s : TypeSetting) (r : Region) (inner : TypesBelow r) (what : String) :
    Except Diagnostic (Step r Ty) :=
  match r.head.kind with
  | .primitive => primitiveType r
  | .identifier => namedType s r what
  | .leftParen => functionType r inner
  | _ => .error (r.fail (.missing what))

/-- A type, where types are known to be read from whatever is shorter. -/
def typeFrom (s : TypeSetting) (r : Region) (inner : TypesBelow r) (what : String) :
    Except Diagnostic (Step r Ty) := do
  let (mark, r₁) := typeMark r
  let (base, r₂) ← r₁.read (baseType s r₁ (fun r' h' => inner r' (r₁.lt_of_lt h')) what)
  let (type, r₃) ← r₂.loop r.size_le base fun r₀ _ element => arraySuffix s element r₀
  let (question, r₄) := r₃.optional .question
  return (type.withFlags { mark with optional := question.isSome }, r₄)

def typeUpTo (s : TypeSetting) :
    (n : Nat) → (r : Region) → r.size < n → (what : String) → Except Diagnostic (Step r Ty)
  | 0, _, h, _ => absurd h Region.not_lt_zero
  | n + 1, r, h, what =>
    typeFrom s r (fun r' h' => typeUpTo s n r' (Region.lt_of_lt_succ h' h)) what

def type (s : TypeSetting) (r : Region) (what : String) : Except Diagnostic (Step r Ty) :=
  typeUpTo s (r.size + 1) r r.size_lt what

end Grammar
end OnePass
