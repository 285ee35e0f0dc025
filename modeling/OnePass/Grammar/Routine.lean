import OnePass.Grammar.Basic
import OnePass.Tree.Returns

/-!
Blocks and the parts of functions: parameters and bodies. A body whose function has a result must
return on every way through it.
-/

namespace OnePass
namespace Grammar

variable {m : Type → Type} [Monad m] [MonadExceptOf Diagnostic m] [MonadStateOf Registry m]
  [MonadLiftT (Except Diagnostic) m] [Account m] {n : Nat}

/-- Statements to the end of a region, with semicolons to spare. -/
def statements (below : Below m n) (ctx : Context) (r : Region) (h : r.size < n) :
    m (Rest r (List Stmt)) :=
  loop r [] fun r₀ h₀ before => do
    if !r₀.hasNext then return none
    match r₀.accept? .semicolon with
    | some (_, r₁) => return some (before, r₁)
    | none =>
      let (s, r₁) ← below.statement ctx r₀ (Region.lt_of_le h₀ h)
      return some (before ++ [s], r₁)

def block (below : Below m n) (ctx : Context) (r : Region) (h : r.size ≤ n) :
    m (Step r Block) := do
  let (inner, rest) ← r.carveBraces
  let (stmts, _) ← statements below ctx inner (inner.below h)
  return (⟨stmts, ctx.scope, rest.spanFrom r.head.span⟩, rest)

/-- Statements in braces, in a scope of their own. -/
def freshBlock (below : Below m n) (ctx : Context) (r : Region) (h : r.size ≤ n) :
    m (Step r Block) := do
  let scope ← ctx.openScope .block
  block below { ctx with scope } r h

/-- One parameter, or the dots for further arguments. -/
def parameter (ctx : Context) (before : List (Option Param)) (r : Region) :
    m (Step r (Option Param)) := do
  if before.any (·.isNone) then throw (r.fail .variadicNotLast)
  if let some (_, rest) := r.accept? .ellipsis then return (none, rest)
  let (name, r₁) ← r.takeNamed .identifier "parameter name"
  let (_, r₂) ← r₁.takeNamed .colon "':' after parameter name"
  let (type, r₃) ← r₂.read (ctx.type r₂ "parameter type")
  let params := before.filterMap id
  if params.any (·.name == name.lexeme) then
    ctx.fail (.duplicateParameter name.lexeme) name.span
  if params.length = maxParameters then ctx.fail .tooManyParameters name.span
  ctx.enter name.span fun reg =>
    reg.defineVariable ctx.scope ⟨⟨name.lexeme, name.lexeme, name.span⟩, type⟩
  return (some ⟨name.lexeme, name.lexeme, type, r₃.spanFrom name.span⟩, r₃)

/-- The parameters of a function, entered into the scope of the context, and whether it takes further
arguments. -/
def parameters (ctx : Context) (r : Region) : m (List Param × Bool) := do
  let all ← items r fun r₀ _ before => parameter ctx before r₀
  return (all.filterMap id, all.any (·.isNone))

def body (below : Below m n) (ctx : Context) (routine : Enclosing) (r : Region) (h : r.size ≤ n) :
    m (Step r Block) := do
  let (b, rest) ← inside ctx routine fun ctx => block below ctx r h
  if !routine.result.isVoid && !b.returns then ctx.fail (.missingReturn routine.name) b.span
  return (b, rest)

end Grammar
end OnePass
