import OnePass.Grammar.Declarations

/-!
Statements. The keyword in front says which; what begins with none is an expression.
-/

namespace OnePass
namespace Grammar

open Token (Kind)

variable {m : Type → Type} [Monad m] [MonadExceptOf Diagnostic m] [MonadStateOf Registry m]
  [MonadLiftT (Except Diagnostic) m] [Account m] {n : Nat}

/-! ### Expressions as statements -/

/-- An expression for its effect. A call may be of a function that is declared further down, so its type
is not asked for. -/
def effect (below : Below m n) (ctx : Context) (r : Region) (h : r.size ≤ n) :
    m (Step r Expr) := do
  let (e, rest) ← expression below ctx r h
  match e with
  | .call _ => pure ()
  | _ => let _ ← ctx.check (·.infer e)
  return (e, rest)

def exprStmt (below : Below m n) (ctx : Context) (r : Region) (h : r.size ≤ n) :
    m (Step r Stmt) := do
  let (e, r₁) ← effect below ctx r h
  let (_, r₂) ← r₁.take .semicolon
  return (.expr e, r₂)

/-! ### Branches and loops -/

def condition (below : Below m n) (ctx : Context) (r : Region) (h : r.size < n) : m Expr := do
  let (e, rest) ← below.expression ctx r h
  rest.finish
  let _ ← ctx.check (·.infer e)
  return e

def header (below : Below m n) (ctx : Context) (r : Region) (h : r.size ≤ n) :
    m (Step r Expr) := do
  let (inner, rest) ← r.carveParens
  if !inner.hasNext then ctx.fail (.missing "a condition") rest.last
  return (← condition below ctx inner (inner.below h), rest)

/-- A block, or one statement in a scope of its own. -/
def branch (below : Below m n) (ctx : Context) (r : Region) (h : r.size < n) :
    m (Step r Block) := do
  if r.headIs .leftBrace then freshBlock below ctx r (Region.le_of_lt h)
  else
    let scope ← ctx.openScope .block
    let (s, rest) ← below.statement { ctx with scope } r h
    return (⟨[s], scope, rest.spanFrom r.head.span⟩, rest)

def elseBranch {r : Region} (below : Below m n) (ctx : Context) (l : Left r) (h : r.size ≤ n) :
    m (Step r (Option Block)) := do
  match l.accept? .kwElse with
  | none => return (none, l)
  | some (_, r₁) =>
    let (b, r₂) ← r₁.read (branch below ctx r₁ (r₁.below h))
    return (some b, r₂)

def ifStmt (below : Below m n) (ctx : Context) (r : Region) (h : r.size ≤ n) :
    m (Step r Stmt) := do
  let (keyword, r₁) ← r.take .kwIf
  let (e, r₂) ← r₁.read (header below ctx r₁ (r₁.within h))
  let (yes, r₃) ← r₂.read (branch below ctx r₂ (r₂.below h))
  let (no, r₄) ← elseBranch below ctx r₃ h
  return (.cond e yes no (r₄.spanFrom keyword.span), r₄)

def whileStmt (below : Below m n) (ctx : Context) (r : Region) (h : r.size ≤ n) :
    m (Step r Stmt) := do
  let (keyword, r₁) ← r.take .kwWhile
  let (e, r₂) ← r₁.read (header below ctx r₁ (r₁.within h))
  let (b, r₃) ← r₂.read (looping ctx fun ctx => freshBlock below ctx r₂ (r₂.within h))
  return (.while e b (r₃.spanFrom keyword.span), r₃)

def forInit (below : Below m n) (ctx : Context) (r : Region) (h : r.size ≤ n) : m Stmt := do
  if let some (t, r₁) := r.next? then
    if t.kind = .kwLet ∨ t.kind = .kwConst then
      let (decl, rest) ← variableDecl below ctx .inherited t r₁ (r₁.within h)
      rest.finish
      return .variable decl
  let (e, rest) ← effect below ctx r h
  rest.finish
  return .expr e

/-- What a loop begins with, its condition, and what each round ends with. -/
def forHeader (below : Below m n) (ctx : Context) (r : Region) (h : r.size ≤ n) :
    m (Option Stmt × Option Expr × Option Expr) := do
  let (first, r₁) ← r.divide .semicolon
  let init ← first.mapM fun (l : Left r) => forInit below ctx l (l.within h)
  let (second, r₂) ← r₁.divide .semicolon
  let test ← second.mapM fun (l : Left r) => condition below ctx l (l.below h)
  if !r₂.hasNext then return (init, test, none)
  let (step, rest) ← effect below ctx r₂ (r₂.within h)
  rest.finish
  return (init, test, some step)

/-- A counting loop: `for (init; condition; step) { ... }`. -/
def forStmt (below : Below m n) (ctx : Context) (r : Region) (h : r.size ≤ n) :
    m (Step r Stmt) := do
  let (keyword, r₁) ← r.take .kwFor
  let (inner, r₂) ← r₁.carveParens
  let scope ← ctx.openScope .block
  let inScope := { ctx with scope }
  let (init, test, step) ← forHeader below inScope inner (inner.within h)
  let (b, r₃) ← r₂.read (looping inScope fun ctx => freshBlock below ctx r₂ (r₂.within h))
  return (.for init test step b scope (r₃.spanFrom keyword.span), r₃)

/-! ### Transfers of control -/

def returnValue {r : Region} (below : Below m n) (ctx : Context) (l : Left r) (h : r.size ≤ n) :
    m (Step r (Option Expr)) := do
  if l.headIs .semicolon then return (none, l)
  let (e, rest) ← l.read (below.expression ctx l (l.below h))
  return (some e, rest)

def returnStmt (below : Below m n) (ctx : Context) (r : Region) (h : r.size ≤ n) :
    m (Step r Stmt) := do
  let (keyword, r₁) ← r.take .kwReturn
  match ← Account.routine ctx with
  | none => ctx.fail .returnOutsideFunction keyword.span
  | some routine =>
    let (value, r₂) ← returnValue below ctx r₁ h
    let (_, r₃) ← r₂.take .semicolon
    let span := r₃.spanFrom keyword.span
    ctx.check (·.checkReturn routine.name routine.result value span)
    return (.return value span, r₃)

/-- Either of `break;` and `continue;`, the keyword being of the given kind. -/
def transfer (ctx : Context) (kind : Kind) (make : Span → Stmt) (r : Region) :
    m (Step r Stmt) := do
  let (keyword, r₁) ← r.take kind
  let (_, r₂) ← r₁.take .semicolon
  if !(← Account.inLoop ctx) then ctx.fail (.outsideLoop keyword.lexeme) keyword.span
  return (make (r₂.spanFrom keyword.span), r₂)

/-! ### All statements -/

def visibility (r : Region) : Rest r Visibility :=
  match r.accept? .kwPublic, r.accept? .kwPrivate with
  | some (_, rest), _ => (.publicly, rest.kept)
  | none, some (_, rest) => (.privately, rest.kept)
  | none, none => (.inherited, .whole r)

def variableStmt (below : Below m n) (ctx : Context) (visibility : Visibility) (keyword : Token)
    (r : Region) (h : r.size ≤ n) : m (Step r Stmt) := do
  let (decl, r₁) ← variableDecl below ctx visibility keyword r h
  let (_, r₂) ← r₁.take .semicolon
  return (.variable decl, r₂)

/-- A declaration that may say who sees it, if one begins here. -/
def visibleDecl? (below : Below m n) (ctx : Context) (visibility : Visibility) (r : Region)
    (h : r.size ≤ n) : Option (m (Step r Stmt)) :=
  match r.next? with
  | none => none
  | some (t, r₁) =>
    match t.kind with
    | .kwFn | .kwExtern | .kwAsync => some (functionStmt below ctx visibility r h)
    | .kwStruct => some (structStmt ctx visibility r)
    | .kwLet | .kwConst => some (r₁.read (variableStmt below ctx visibility t r₁ (r₁.within h)))
    | _ => none

def plainStmt (below : Below m n) (ctx : Context) (r : Region) (h : r.size ≤ n) :
    m (Step r Stmt) := do
  match r.head.kind with
  | .kwPackage => ctx.fail .packageNotFirst r.head.span
  | .kwImport => importStmt ctx r
  | .kwModule => moduleStmt below ctx r h
  | .kwEnum => enumStmt below ctx r h
  | .kwIf => ifStmt below ctx r h
  | .kwWhile => whileStmt below ctx r h
  | .kwFor => forStmt below ctx r h
  | .kwReturn => returnStmt below ctx r h
  | .kwBreak => transfer ctx .kwBreak .break r
  | .kwContinue => transfer ctx .kwContinue .continue r
  | .leftBrace =>
    let (b, rest) ← freshBlock below ctx r h
    return (.block b, rest)
  | _ => exprStmt below ctx r h

def statement (below : Below m n) (ctx : Context) (r : Region) (h : r.size ≤ n) :
    m (Step r Stmt) :=
  nested ctx r fun ctx => do
    let (v, r₁) := visibility r
    match visibleDecl? below ctx v r₁ (r₁.within h) with
    | some decl => r₁.read decl
    | none =>
      if v ≠ .inherited then ctx.fail .visibilityWithoutDeclaration r.head.span
      r₁.read (plainStmt below ctx r₁ (r₁.within h))

end Grammar
end OnePass
