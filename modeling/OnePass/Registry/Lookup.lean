import OnePass.Diagnostic.Fault
import OnePass.Registry.Basic
import OnePass.Text.EditDistance

/-!
Finding definitions. Variables are looked for from the inside out; functions and structs in the global
scope and the modules around; the layout of a struct through its aliases.
-/

namespace OnePass
namespace Registry

/-- The innermost variable that answers to `name`, and its scope. -/
def resolveVariable? (r : Registry) (id : ScopeId) (name : String) : Option (ScopeId × Variable) :=
  (r.ancestors id).findSome? fun a =>
    ((r.scope? a).bind (·.findVariable? name)).map (a, ·)

def findVariable? (r : Registry) (id : ScopeId) (name : String) : Option Variable :=
  (r.resolveVariable? id name).map (·.2)

def variableIn? (r : Registry) (id : ScopeId) (name : String) : Option Variable :=
  (r.scope? id).bind (·.findVariable? name)

def visible (r : Registry) (id : ScopeId) : List Definition :=
  (r.ancestors id).flatMap r.definitions

/-- What is seen of the global scope and the modules around, innermost first. -/
def declared (r : Registry) (id : ScopeId) : List Definition :=
  ((r.ancestors id).filter r.declares).flatMap r.definitions

def functions (r : Registry) (id : ScopeId) : List Overload :=
  (r.declared id).filterMap (·.asFunction?)

def structs (r : Registry) (id : ScopeId) : List Struct :=
  (r.declared id).filterMap (·.asStruct?)

def function? (r : Registry) (id : ScopeId) (internal : String) : Option Overload :=
  (r.functions id).find? (·.symbol.internal == internal)

def functionsNamed (r : Registry) (id : ScopeId) (name : String) : List Overload :=
  (r.functions id).filter (·.symbol.name == name)

def struct? (r : Registry) (id : ScopeId) (internal : String) : Option Struct :=
  (r.structs id).find? (·.symbol.internal == internal)

def definition? (r : Registry) (id : ScopeId) (name : String) : Option Definition :=
  (r.visible id).find? (·.symbol.answersTo name)

/-! ### Layouts -/

/-- The fields at the end of a chain of aliases that passes through at most `n` structs. -/
def followAliases (r : Registry) (id : ScopeId) (name : String) :
    (n : Nat) → Struct → Except Fault (List Field)
  | 0, _ => .error (.cyclicAlias name)
  | n + 1, s =>
    match s.layout with
    | .fields fields => .ok fields
    | .alias target =>
      match r.struct? id target.internal with
      | some s => followAliases r id name n s
      | none => .error (.undefinedAlias s.symbol.name target.name)

/-- The fields of a struct, or nothing if there is no such struct. A chain of aliases that has passed
through as many structs as there are and has not ended goes round in a circle. -/
def fields? (r : Registry) (id : ScopeId) (name : String) : Except Fault (Option (List Field)) :=
  match r.struct? id name with
  | some s => (followAliases r id name (r.structs id).length s).map some
  | none => .ok none

/-! ### Suggestions -/

/-- How far a misspelt name may be from what is suggested. -/
def maxSuggestionDistance : Nat := 4

/-- How far a name is from a query, and by how much their lengths differ. A name that only has more or
only has fewer characters counts as no distance at all. -/
def suggestionScore (query name : String) : Nat × Nat :=
  let difference := max query.length name.length - min query.length name.length
  let distance := editDistance query name
  (if distance = difference then 0 else distance, difference)

def closer (query : String) (best : Option (Definition × Nat × Nat)) (d : Definition) :
    Option (Definition × Nat × Nat) :=
  let (distance, difference) := suggestionScore query d.symbol.internal
  match best with
  | some (_, bestDistance, bestDifference) =>
    if distance < bestDistance ∨ (distance = bestDistance ∧ difference < bestDifference) then
      some (d, distance, difference)
    else best
  | none => some (d, distance, difference)

/-- The definition whose internal name is closest to a query, if it is close enough. -/
def suggestion? (r : Registry) (id : ScopeId) (query : String) : Option Definition :=
  match (r.visible id).foldl (closer query) none with
  | some (d, distance, _) => if distance ≤ maxSuggestionDistance then some d else none
  | none => none

end Registry
end OnePass
