import OnePass.Diagnostic.Basic
import OnePass.Registry.Lookup
import OnePass.Tree.Basic
import OnePass.Ty.Promotion

/-!
The types of expressions. Inference only looks at the registry: an identifier has the type its binding
was entered with, a call the result type of its target. A diagnostic from here points nowhere; whoever
asked knows the place.
-/

namespace OnePass

/-- The type of a literal. Without a suffix, an integer has the first of `i32`, `i64` and `u64` that
holds it. -/
def Literal.type : Literal → Ty
  | integer _ true => .ofPrimitive .i64
  | integer value false =>
    if value < twoTo 31 then .ofPrimitive .i32
    else if value < twoTo 63 then .ofPrimitive .i64
    else .ofPrimitive .u64
  | float _ double => .ofPrimitive (if double then .f64 else .f32)
  | string _ => .ofPrimitive .string
  | char _ => .ofPrimitive .char
  | bool _ => .bool
  | nil => .ofPrimitive .nil

namespace Typing

def fault {α : Type} (f : Fault) : Except Diagnostic α := .error { fault := f }

def orFault {α : Type} (found : Option α) (f : Fault) : Except Diagnostic α :=
  match found with
  | some a => .ok a
  | none => fault f

/-- Points a failure at a place, unless it already points somewhere. -/
def locate {α : Type} (source : Source) (span : Span) : Except Diagnostic α → Except Diagnostic α
  | .ok a => .ok a
  | .error d => .error (d.orReference source span)

def withHint (d : Diagnostic) (name : Option String) : Diagnostic :=
  match name with
  | some name => d.setHint s!"Did you mean '{name}'?"
  | none => d

/-- How a definition is named where a function was looked for. -/
def calledName : Definition → String
  | .function f => Name.signature (Name.path f.symbol.name) f.params
  | d => d.symbol.name

def notFound (reg : Registry) (c : Call) : Diagnostic :=
  withHint { fault := .functionNotFound (Name.signature c.name c.argTypes) }
    ((reg.suggestion? c.scope (Name.overload c.qualified c.argTypes false)).map calledName)

def identifier (reg : Registry) (id : Identifier) : Except Diagnostic Ty :=
  match id.binding with
  | .variable internal scope =>
    orFault ((reg.variableIn? scope internal).map (·.type)) (.undefinedVariable id.name)
  | .function internal =>
    orFault ((reg.function? Registry.global internal).map (·.type)) (.unknownResult id.name)

def member (reg : Registry) (scope : ScopeId) (owner : String) (type : Ty) (m : Member) :
    Except Diagnostic Ty := do
  let struct ← orFault type.structName? (.notAStruct type)
  let fields ← match reg.fields? scope struct with
    | .ok fields => orFault fields (.undefinedStruct struct)
    | .error f => fault f
  orFault ((fields.find? (·.name == m.name)).map (·.type)) (.noSuchMember owner struct m.name)

def members (reg : Registry) (scope : ScopeId) (owner : String) (type : Ty) :
    List Member → Except Diagnostic Ty
  | [] => .ok type
  | m :: ms => do members reg scope m.name (← member reg scope owner type m) ms

def result (reg : Registry) (scope : ScopeId) (c : Call) : Except Diagnostic Ty :=
  match c.target with
  | .function internal =>
    orFault ((reg.function? scope internal).map (·.result)) (.unknownResult c.name)
  | .variable internal scope =>
    match (reg.variableIn? scope internal).map (·.type) with
    | some (Ty.function _ result _) => .ok result
    | _ => fault (.unknownResult c.name)
  | .deferred => .error (notFound reg c)

def arithmetic (lhs rhs : Ty) : Except Diagnostic Ty :=
  if lhs.agrees rhs && lhs.isPointer == rhs.isPointer then .ok lhs
  else match lhs.dominant rhs with
    | .ok type => .ok type
    | .error f => fault f

def unary (type : Ty) : UnaryOp → Except Diagnostic Ty
  | .not => .ok .bool
  | .addressOf => .ok type.pointerTo
  | .dereference => if type.isPointer then .ok type.pointee else fault .notAPointer
  | _ => .ok type

def infer (reg : Registry) (scope : ScopeId) : Expr → Except Diagnostic Ty
  | .literal value _ => .ok value.type
  | .identifier id => identifier reg id
  | .variadic _ => .ok (Ty.ofPrimitive .i8).pointerTo
  | .member base ms _ => do members reg scope base.name (← identifier reg base) ms
  | .index array _ _ => do
    let type ← infer reg scope array
    orFault type.element? (.notAnArray type)
  | .call c => result reg scope c
  | .binary op lhs rhs _ => do
    let l ← infer reg scope lhs
    let r ← infer reg scope rhs
    match op with
    | .arithmetic _ => arithmetic l r
    | .comparison _ | .logical _ => return .bool
  | .unary op operand _ => do unary (← infer reg scope operand) op
  | .assign _ _ value _ => infer reg scope value
  | .construct _ internal _ _ => .ok (.named internal .plain)
  | .array [] _ => .ok (.array .unknown 0 .plain)
  | .array (e :: es) _ => do return .array (← infer reg scope e) (es.length + 1) .plain
  | .lambda f => .ok f.type

/-- The type that a declaration contributes: the declared one if the initial value agrees with it,
otherwise the one that both are unified to. -/
def declaration (reg : Registry) (d : VarDecl) : Except Diagnostic Ty :=
  match d.value with
  | none => .ok d.type
  | some value => do
    let actual ← infer reg d.scope value
    if d.type.agrees actual then return d.type
    match d.type.dominant actual with
    | .ok type => return type
    | .error f => fault f

end Typing
end OnePass
