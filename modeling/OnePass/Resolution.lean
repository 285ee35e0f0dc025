import OnePass.Registry.Define
import OnePass.Typing.Check

/-!
What a written name stands for. A struct is looked for in the modules around, innermost first, then from
the outside; a variable in the scopes around or in the module that the path names; a function under the
name it would have in the module around, then as written.

A call is given to the function whose parameters have exactly the types of the arguments; else to a
function that goes by its bare name, then to a variable that holds a function, and last to the only
function of that name that takes the arguments.
-/

namespace OnePass
namespace Registry

/-! ### Types -/

/-- The internal name of a struct seen from a scope; `declaring` is a struct that is being declared and
not yet entered. -/
def structName? (reg : Registry) (scope : ScopeId) (declaring : Option String) (name : String) :
    Option String :=
  let path := reg.modulePath scope
  let candidates := (List.range (path.length + 1)).reverse.map fun depth =>
    Name.qualified (path.take depth ++ [name])
  candidates.find? fun c => declaring == some c || (reg.struct? scope c).isSome

def markerName? (reg : Registry) (scope : ScopeId) (name : String) : Option String :=
  match reg.definition? scope name with
  | some (.marker symbol .classType) | some (.marker symbol .enumType) => some symbol.internal
  | _ => none

/-! ### Identifiers -/

def moduleVariable? (reg : Registry) (module name : String) : Option (ScopeId × Variable) := do
  let id ← reg.module? module
  let v ← reg.variableIn? id name
  return (id, v)

def pathVariable? (reg : Registry) (scope : ScopeId) (segments : List String) :
    Option (ScopeId × Variable) :=
  match segments.reverse with
  | [] => none
  | [name] => reg.resolveVariable? scope name
  | name :: path =>
    let module := Name.qualified path.reverse
    [reg.qualify scope module, module].findSome? fun m => reg.moduleVariable? m name

/-- The function that a qualified name stands for where no arguments tell overloads apart. -/
def onlyFunction? (reg : Registry) (scope : ScopeId) (name : String) : Option Overload :=
  match reg.functionsNamed scope name with
  | [f] => some f
  | _ => none

def bindingOf? (reg : Registry) (scope : ScopeId) (segments : List String) : Option Binding :=
  match reg.pathVariable? scope segments with
  | some (id, v) => some (.variable v.symbol.internal id)
  | none =>
    let joined := Name.qualified segments
    let found := [reg.qualify scope joined, joined].findSome? (reg.onlyFunction? scope)
    found.map fun f => .function f.symbol.internal

def resolveIdentifier (reg : Registry) (source : Source) (scope : ScopeId) (segments : List String)
    (span : Span) : Except Diagnostic Identifier :=
  let name := Name.written segments
  match reg.bindingOf? scope segments with
  | some binding => .ok { name, binding, span }
  | none =>
    let close := reg.suggestion? scope (Name.qualified segments)
    .error (Typing.withHint (.located (.undefinedVariable name) source span)
      (close.map fun d => Name.path d.symbol.name))

/-! ### Calls -/

def takes (reg : Registry) (c : Call) (f : Overload) : Except Diagnostic Bool :=
  Typing.argumentsFit reg c.scope f.params f.traits.isVariadic c.args

/-- The names that a call may mean: that of the module around, and the one written. -/
def calleeNames (reg : Registry) (c : Call) : List String :=
  let inner := reg.qualify c.scope c.qualified
  if inner = c.qualified then [inner] else [inner, c.qualified]

/-- A function known by the name with the types of the arguments, or by the bare name. -/
def exactTarget? (reg : Registry) (c : Call) : List String → Except Diagnostic (Option Target)
  | [] => .ok none
  | name :: names => do
    let overload := Name.overload name c.argTypes false
    if (reg.function? c.scope overload).isSome then return some (.function overload)
    match reg.function? c.scope name with
    | some bare => if ← reg.takes c bare then return some (.function name)
    | none => pure ()
    exactTarget? reg c names

def variableTarget? (reg : Registry) (c : Call) : Except Diagnostic (Option Target) := do
  if Name.hasSeparator c.qualified.toList then return none
  match reg.resolveVariable? c.scope c.qualified with
  | some (id, ⟨symbol, .function params _ _⟩) =>
    if ← Typing.argumentsFit reg c.scope params false c.args then
      return some (.variable symbol.internal id)
    else return none
  | _ => return none

def onlyTarget? (reg : Registry) (c : Call) : List String → Except Diagnostic (Option Target)
  | [] => .ok none
  | name :: names => do
    match ← (reg.functionsNamed c.scope name).filterM (reg.takes c) with
    | [] => onlyTarget? reg c names
    | [f] => return some (.function f.symbol.internal)
    | fs => Typing.fault (.ambiguousCall (Name.signature c.name c.argTypes) fs.length)

def target? (reg : Registry) (c : Call) : Except Diagnostic (Option Target) := do
  let names := reg.calleeNames c
  if let some t ← reg.exactTarget? c names then return some t
  if let some t ← reg.variableTarget? c then return some t
  reg.onlyTarget? c names

/-- Gives a call its target, or leaves it for later. -/
def aim (reg : Registry) (source : Source) (c : Call) : Except Diagnostic Call := do
  match ← Typing.locate source c.span (reg.target? c) with
  | some target => return { c with target }
  | none => return c

/-- Gives a call that was left for later its target, which must be there now. -/
def settleCall (reg : Registry) (source : Source) (c : Call) : Except Diagnostic Call := do
  if c.target ≠ .deferred then return c
  match ← Typing.locate source c.span (reg.target? c) with
  | some target => return { c with target }
  | none => throw ((Typing.notFound reg c).addReference source c.span)

end Registry
end OnePass
