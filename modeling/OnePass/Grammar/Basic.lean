import OnePass.Grammar.Types

/-!
What productions read against, and how they call each other. The registry is the only thing that reading
changes, and it keeps what was entered before a failure; all else a production knows is its `Context`.

Productions are not recursive. Where one needs another on a shorter region it asks `Below`, which
holds them for the regions below a size; the knot is tied once, by recursion on that size.
-/

namespace OnePass
namespace Grammar

/-- The function whose body is being read. -/
structure Enclosing where
  name : String
  result : Ty
  isVariadic : Bool

structure Context where
  source : Source
  scope : ScopeId := Registry.global
  /-- How many statements, expressions and unary operators are being read around this place. -/
  depth : Nat := 0
  /-- Is there a loop between this place and the function around it? -/
  inLoop : Bool := false
  routine : Option Enclosing := none

abbrev Parse := ExceptT Diagnostic (StateM Registry)

def Context.deeper (ctx : Context) (r : Region) : Except Diagnostic Context :=
  if maxDepth ≤ ctx.depth then .error (r.fail .nestedTooDeep)
  else .ok { ctx with depth := ctx.depth + 1 }

/-- How a reading keeps account of what it is inside of. It may go by what a production is told, or by
what it has noted itself. -/
class Account (m : Type → Type) where
  nested {α : Type} : Context → Region → (Context → m α) → m α
  looping {α : Type} : Context → (Context → m α) → m α
  inside {α : Type} : Context → Enclosing → (Context → m α) → m α
  declaring {α : Type} : String → m α → m α
  inLoop : Context → m Bool
  routine : Context → m (Option Enclosing)
  /-- The struct whose fields are being read. -/
  declared : Option String → m (Option String)

export Account (nested looping inside declaring)

/-- All is in the context. -/
instance : Account Parse where
  nested ctx r read := do read (← ctx.deeper r)
  looping ctx read := read { ctx with inLoop := true }
  inside ctx routine read := read { ctx with inLoop := false, routine := some routine }
  declaring _ read := read
  inLoop ctx := return ctx.inLoop
  routine ctx := return ctx.routine
  declared told := return told

@[simp]
theorem inLoop_eq (ctx : Context) : (Account.inLoop ctx : Parse Bool) = pure ctx.inLoop := rfl

@[simp]
theorem routine_eq (ctx : Context) : (Account.routine ctx : Parse (Option Enclosing)) = pure ctx.routine := rfl

@[simp]
theorem declared_eq (told : Option String) : (Account.declared told : Parse (Option String)) = pure told := rfl

variable {m : Type → Type} [Monad m] [MonadExceptOf Diagnostic m] [MonadStateOf Registry m]
  [MonadLiftT (Except Diagnostic) m] [Account m]

namespace Context

def fail {α : Type} (ctx : Context) (fault : Fault) (span : Span) : m α :=
  throw (.located fault ctx.source span)

def check {α : Type} (ctx : Context) (test : Typing.Setting → Except Diagnostic α) : m α := do
  test ⟨← get, ctx.scope, ctx.source⟩

def openScope (ctx : Context) (kind : ScopeKind) : m ScopeId :=
  modifyGet fun reg => reg.openScope ctx.scope kind

/-- Enters a definition; a failure is that of the place where the name stands. -/
def enter (ctx : Context) (span : Span) (define : Registry → Except Fault Unit × Registry) : m Unit := do
  match ← modifyGet define with
  | .ok () => return ()
  | .error fault => ctx.fail fault span

/-- Functions, structs and modules are declared in modules only. -/
def requireModule (ctx : Context) (fault : Fault) (span : Span) : m Unit := do
  if !(← get).declares ctx.scope then ctx.fail fault span

def type (ctx : Context) (r : Region) (what : String) (declaring : Option String := none) :
    m (Step r Ty) := do
  let declaring ← Account.declared declaring
  Grammar.type ⟨← get, ctx.source, ctx.scope, declaring⟩ r what

end Context

/-- The productions that others call, for regions of size less than `n`. -/
structure Below (m : Type → Type) (n : Nat) where
  statement : Context → (r : Region) → r.size < n → m (Step r Stmt)
  expression : Context → (r : Region) → r.size < n → m (Step r Expr)
  unary : Context → (r : Region) → r.size < n → m (Step r Expr)
  power : Context → (r : Region) → r.size < n → m (Step r Expr)

end Grammar
end OnePass
