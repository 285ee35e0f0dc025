import OnePass.Typing.Coercion

/-!
What is checked where a value meets a slot: in declarations, assignments, returns, struct values and
indices. Each check reports the first thing that is wrong, with the place.
-/

namespace OnePass
namespace Typing

/-- What a check reads: the names, the scope it is in, and the file that faults are shown in. -/
structure Setting where
  reg : Registry
  scope : ScopeId
  source : Source

namespace Setting

variable (s : Setting)

def fail {α : Type} (fault : Fault) (span : Span) : Except Diagnostic α :=
  .error (.located fault s.source span)

/-- The type of an expression, a failure being the expression's. -/
def infer (e : Expr) : Except Diagnostic Ty :=
  locate s.source e.span (Typing.infer s.reg s.scope e)

/-- Does a slot take the value? A failure is the value's. -/
def coerces (target : Ty) (value : Expr) : Except Diagnostic Bool :=
  locate s.source value.span (Typing.coerces s.reg s.scope target value)

def checkDeclaration (declared : Ty) (declaredSpan : Span) (value : Expr) :
    Except Diagnostic Unit := do
  let actual ← s.infer value
  if ← Typing.coerces s.reg s.scope declared value then return
  let d := Diagnostic.located (.declarationMismatch declared actual) s.source declaredSpan
  throw (d.addReference s.source value.span)

/-- The values of a struct against its fields, from the field numbered `index` on. -/
def checkFields (struct : String) (all : List Field) :
    (index : Nat) → List Field → List Entry → Except Diagnostic Unit
  | index, expected :: rest, e :: entries => do
    let some field := all.find? (·.name == e.name) | s.fail (.unknownMember struct e.name) e.span
    if expected.name != e.name then s.fail (.memberOrder index expected.name e.name) e.span
    if !(← s.coerces field.type e.value) then
      let actual ← Typing.infer s.reg s.scope e.value
      s.fail (.memberMismatch e.name struct field.type actual) e.value.span
    checkFields struct all (index + 1) rest entries
  | _, _, _ => .ok ()

/-- A struct value: as many values as fields, with the same names in the same order. -/
def checkConstruction (struct internal : String) (entries : List Entry) (span : Span) :
    Except Diagnostic Unit := do
  let fields ← locate s.source span <|
    match s.reg.fields? s.scope internal with
    | .ok fields => orFault fields (.undefinedStruct struct)
    | .error f => fault f
  if fields.length < entries.length then
    s.fail (.tooManyMembers struct fields.length entries.length) span
  if entries.length < fields.length then
    s.fail (.tooFewMembers struct fields.length entries.length) span
  s.checkFields struct fields 0 fields entries

def checkReturn (function : String) (result : Ty) (value : Option Expr) (span : Span) :
    Except Diagnostic Unit := do
  match value with
  | some value =>
    if result.isVoid then s.fail (.valueFromVoid function) value.span
    if !(← s.coerces result value) then
      let actual ← Typing.infer s.reg s.scope value
      s.fail (.returnMismatch function result (some actual)) value.span
  | none => if !result.isVoid then s.fail (.returnMismatch function result none) span

structure Slot where
  name : String
  variableType : Ty
  type : Ty

/-- The slot that a name, a chain of members or an element of a named array stands for. -/
def slot? (target : Expr) : Except Diagnostic (Option Slot) := do
  let root : Option (Identifier × Bool) := match target with
    | .identifier id => some (id, true)
    | .member base .. => some (base, false)
    | .index (.identifier id) .. => some (id, false)
    | _ => none
  let some (id, isWhole) := root | return none
  let part ← if isWhole then pure none else some <$> Typing.infer s.reg s.scope target
  match id.binding with
  | .variable internal scope =>
    return (s.reg.variableIn? scope internal).map fun v => ⟨id.name, v.type, part.getD v.type⟩
  | .function _ => return none

/-- An assignment needs a variable that may change and a value that its slot takes. -/
def checkAssignment (target value : Expr) (span : Span) : Except Diagnostic Unit := do
  let some slot ← locate s.source target.span (s.slot? target) | s.fail .invalidTarget target.span
  if !slot.variableType.isMutable then s.fail (.immutable slot.name) span
  if !(← s.coerces slot.type value) then
    let actual ← Typing.infer s.reg s.scope value
    s.fail (.assignmentMismatch slot.name slot.type actual) value.span

/-- Increments and decrements need a variable that may change. -/
def checkIncrement (target : Expr) : Except Diagnostic Unit := do
  let some slot ← locate s.source target.span (s.slot? target)
    | s.fail .incrementWithoutVariable target.span
  if !slot.variableType.isMutable then s.fail (.immutable slot.name) target.span

def checkIndex (index : Expr) : Except Diagnostic Unit := do
  let type ← s.infer index
  if !type.isInteger || type.isPointer then s.fail (.indexNotInteger type) index.span

end Setting
end Typing
end OnePass
