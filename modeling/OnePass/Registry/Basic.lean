import OnePass.Name
import OnePass.Text.Span

/-!
The registry of everything that a program declares: scopes in the order they were opened, each with its
definitions in the order they were entered. A scope is known by its number and carries the numbers of
the scopes around it, so the way up to the global scope is at hand. Functions and structs are entered
in the global scope, whichever module declares them; variables in the scope they are declared in.
-/

namespace OnePass

/-- The place of a scope in the registry. -/
abbrev ScopeId := Nat

inductive ScopeKind where
  | global | module | function | classBody | block
deriving DecidableEq

/-- May functions and structs be declared here? -/
def ScopeKind.declares : ScopeKind → Bool
  | global | module => true
  | _ => false

structure Symbol where
  name : String
  /-- The name it is known by. -/
  internal : String
  span : Span
deriving DecidableEq

def Symbol.answersTo (s : Symbol) (name : String) : Bool :=
  s.name == name || s.internal == name

structure Variable where
  symbol : Symbol
  type : Ty

structure FunctionTraits where
  isExtern : Bool := false
  isAsync : Bool := false
  isVariadic : Bool := false
  isAnonymous : Bool := false
deriving DecidableEq

/-- One of the functions that share a name. -/
structure Overload where
  symbol : Symbol
  params : List Ty
  result : Ty
  traits : FunctionTraits

def Overload.type (f : Overload) : Ty := .function f.params f.result .plain

structure Field where
  name : String
  type : Ty

inductive Layout where
  | fields (fields : List Field)
  /-- The layout of another struct. -/
  | alias (target : Symbol)

structure Struct where
  symbol : Symbol
  layout : Layout

/-- What a name may stand for that has neither type nor layout. -/
inductive MarkerKind where
  | classType | enumType | enumMember
deriving DecidableEq

inductive Definition where
  | variable (v : Variable)
  | function (f : Overload)
  | struct (s : Struct)
  | marker (symbol : Symbol) (kind : MarkerKind)

namespace Definition

def symbol : Definition → Symbol
  | .variable v => v.symbol
  | .function f => f.symbol
  | .struct s => s.symbol
  | .marker s _ => s

def asVariable? : Definition → Option Variable
  | .variable v => some v
  | _ => none

def asFunction? : Definition → Option Overload
  | .function f => some f
  | _ => none

def asStruct? : Definition → Option Struct
  | .struct s => some s
  | _ => none

end Definition

structure Scope where
  kind : ScopeKind
  /-- The scopes around this one, innermost first. -/
  enclosing : List ScopeId := []
  name : Option String := none
  definitions : List Definition := []

namespace Scope

def parent? (s : Scope) : Option ScopeId := s.enclosing.head?

def findVariable? (s : Scope) (name : String) : Option Variable :=
  (s.definitions.filterMap (·.asVariable?)).find? (·.symbol.answersTo name)

end Scope

structure Registry where
  scopes : List Scope
  /-- The named modules by qualified name, in the order they were first opened. -/
  modules : List (String × ScopeId) := []
  /-- How many functions without a name have been numbered. -/
  anonymous : Nat := 0

namespace Registry

def empty : Registry := { scopes := [{ kind := .global }] }

def global : ScopeId := 0

def scope? (r : Registry) (id : ScopeId) : Option Scope := r.scopes[id]?

def kind? (r : Registry) (id : ScopeId) : Option ScopeKind := (r.scope? id).map (·.kind)

def isKind (r : Registry) (id : ScopeId) (kind : ScopeKind) : Bool := r.kind? id == some kind

def declares (r : Registry) (id : ScopeId) : Bool := (r.kind? id).any (·.declares)

def definitions (r : Registry) (id : ScopeId) : List Definition :=
  ((r.scope? id).map (·.definitions)).getD []

/-- A scope and those around it, up to the global one. -/
def ancestors (r : Registry) (id : ScopeId) : List ScopeId :=
  match r.scope? id with
  | some s => id :: s.enclosing
  | none => []

/-- The segments of the modules around a scope, outermost first. -/
def modulePath (r : Registry) (id : ScopeId) : List String :=
  ((r.ancestors id).filterMap fun a =>
    match r.scope? a with
    | some { kind := .module, name, .. } => name
    | _ => none).reverse

/-- The name that `name` is given when it is declared in a scope. -/
def qualify (r : Registry) (id : ScopeId) (name : String) : String :=
  Name.qualified (r.modulePath id ++ [name])

def nearest? (r : Registry) (id : ScopeId) (kind : ScopeKind) : Option ScopeId :=
  (r.ancestors id).find? (r.isKind · kind)

end Registry
end OnePass
