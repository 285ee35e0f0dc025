import OnePass.Diagnostic.Fault
import OnePass.Registry.Basic

/-!
Entering scopes and definitions. An operation that may fail gives the registry from then on in either case.
-/

namespace OnePass
namespace Registry

def nameAnonymous (r : Registry) : String × Registry :=
  (s!"__anonymous_{r.anonymous}", { r with anonymous := r.anonymous + 1 })

def openScope (r : Registry) (parent : ScopeId) (kind : ScopeKind)
    (name : Option String := none) : ScopeId × Registry :=
  (r.scopes.length,
    { r with scopes := r.scopes ++ [{ kind, enclosing := r.ancestors parent, name }] })

def module? (r : Registry) (qualifiedName : String) : Option ScopeId :=
  r.modules.lookup qualifiedName

/-- Opens a module inside `parent`, or finds it if it has been opened before. -/
def openModule (r : Registry) (parent : ScopeId) (name : String) : ScopeId × Registry :=
  let key := Name.qualified (r.modulePath parent ++ [name])
  match r.module? key with
  | some id => (id, r)
  | none =>
    let (id, r) := r.openScope parent .module (some name)
    (id, { r with modules := r.modules ++ [(key, id)] })

/-- Enters a definition behind those of a scope. -/
def enter (r : Registry) (id : ScopeId) (d : Definition) : Registry :=
  { r with
    scopes := r.scopes.modify id fun s => { s with definitions := s.definitions ++ [d] } }

/-- Enters a variable. It may hide one of an outer scope, but not one of its own. -/
def defineVariable (r : Registry) (id : ScopeId) (v : Variable) : Except Fault Unit × Registry :=
  let taken (name : String) := (r.scope? id).any fun s => (s.findVariable? name).isSome
  if taken v.symbol.name || taken v.symbol.internal then
    (.error (.duplicateVariable v.symbol.name (r.isKind id .global)), r)
  else (.ok (), r.enter id (.variable v))

/-- Enters a function, known by its internal name. -/
def defineFunction (r : Registry) (f : Overload) : Except Fault Unit × Registry :=
  if ((r.definitions global).filterMap (·.asFunction?)).any (·.symbol.internal == f.symbol.internal) then
    (.error (.duplicateFunction f.symbol.internal), r)
  else (.ok (), r.enter global (.function f))

def defineStruct (r : Registry) (id : ScopeId) (s : Struct) : Except Fault Unit × Registry :=
  if !r.declares id then
    let fault := match s.layout with
      | .fields _ => .structInScope
      | .alias _ => .aliasInScope
    (.error fault, r)
  else if ((r.definitions global).filterMap (·.asStruct?)).any (·.symbol.internal == s.symbol.internal)
  then (.error (.duplicateStruct s.symbol.name), r)
  else (.ok (), r.enter global (.struct s))

def defineMarker (r : Registry) (id : ScopeId) (symbol : Symbol) (kind : MarkerKind) :
    Except Fault Unit × Registry :=
  let isTaken : Definition → Bool
    | .marker s _ => s.internal == symbol.internal
    | _ => false
  if (r.definitions id).any isTaken then (.error (.duplicateMarker symbol.name), r)
  else (.ok (), r.enter id (.marker symbol kind))

end Registry
end OnePass
