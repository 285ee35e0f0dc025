import OnePass.Grammar.Routine
import OnePass.Numeral.Double

/-!
Expressions, loosest first: assignment, logical operators on one level, comparisons, sums, products,
powers (to the right), prefix operators, postfix operators, and what has no operator. Each is checked as
it is read, so a value of the wrong type is a fault before what follows it is looked at.
-/

namespace OnePass
namespace Grammar

open Token (Kind)

variable {m : Type → Type} [Monad m] [MonadExceptOf Diagnostic m] [MonadStateOf Registry m]
  [MonadLiftT (Except Diagnostic) m] [Account m] {n : Nat}

/-! ### Literals -/

def integerLiteral (source : Source) (t : Token) (long : Bool) : Except Diagnostic Literal :=
  match Numeral.integer? t.lexeme with
  | some value => .ok (.integer value long)
  | none => .error (.located (.integerOutOfRange t.lexeme) source t.span)

def floatLiteral (source : Source) (t : Token) (double : Bool) : Except Diagnostic Literal :=
  match Numeral.double? t.lexeme with
  | some bits => .ok (.float bits double)
  | none => .error (.located (.malformedFloat t.lexeme) source t.span)

def literal (source : Source) (t : Token) : Except Diagnostic Literal :=
  match t.kind with
  | .integer => integerLiteral source t false
  | .longInteger => integerLiteral source t true
  | .float => floatLiteral source t false
  | .doubleFloat => floatLiteral source t true
  | .string => .ok (.string t.lexeme)
  | .char => .ok (.char (t.lexeme.toList.headD (Char.ofNat 0)))
  | .kwTrue => .ok (.bool true)
  | .kwFalse => .ok (.bool false)
  | _ => .ok .nil

/-! ### Names -/

def call (below : Below m n) (ctx : Context) (segments : List String) (start : Span) (r : Region)
    (h : r.size ≤ n) : m (Step r Expr) := do
  let (inner, rest) ← r.carveParens
  let args ← inner.items h fun r₀ h₀ before => do
    if before.length = maxParameters then throw (r₀.fail .tooManyArguments)
    below.expression ctx r₀ h₀
  let argTypes ← args.mapM fun arg => ctx.check (·.infer arg)
  let c : Call :=
    { name := Name.written segments
      qualified := Name.qualified segments
      args, argTypes
      target := .deferred
      scope := ctx.scope
      span := rest.spanFrom start }
  return (.call (← (← get).aim ctx.source c), rest)

def entry (below : Below m n) (ctx : Context) (r : Region) (h : r.size ≤ n) :
    m (Step r Entry) := do
  let (name, r₁) ← r.takeNamed .identifier "struct member name"
  let (_, r₂) ← r₁.takeNamed .colon "':' after struct member name"
  let (value, r₃) ← r₂.read (below.expression ctx r₂ (r₂.below h))
  return (⟨name.lexeme, value, r₃.spanFrom name.span⟩, r₃)

def construction (below : Below m n) (ctx : Context) (segments : List String) (start : Span)
    (r : Region) (h : r.size ≤ n) : m (Step r Expr) := do
  let (inner, rest) ← r.carveBraces
  let fields ← inner.items h fun r₀ h₀ _ => entry below ctx r₀ (Region.le_of_lt h₀)
  let name := Name.written segments
  let span := rest.spanFrom start
  match (← get).structName? ctx.scope none (Name.qualified segments) with
  | none => ctx.fail (.undefinedStruct name) span
  | some internal =>
    ctx.check (·.checkConstruction name internal fields span)
    return (.construct name internal fields span, rest)

def member (segments : Nat) (before : List Member) (r : Region) :
    m (Option (Step r (List Member))) := do
  let some (_, r₁) := r.accept? .dot | return none
  let (t, r₂) ← r₁.takeNamed .identifier "member name after '.'"
  let members := before ++ [⟨t.lexeme, t.span⟩]
  if segments + members.length > maxSegments then throw (r₂.fail .tooManySegments)
  return some (members, r₂)

def members {r : Region} (segments : Nat) (l : Left r) : m (Step r (List Member)) :=
  l.loop r.size_le [] fun r₀ _ before => member segments before r₀

/-- A name, which has been read, and the members of what it stands for. -/
def variableExpr {r : Region} (ctx : Context) (segments : List String) (span start : Span)
    (l : Left r) : m (Step r Expr) := do
  let id ← (← get).resolveIdentifier ctx.source ctx.scope segments span
  let (members, rest) ← members segments.length l
  if members.isEmpty then return (.identifier id, rest)
  let e := .member id members (rest.spanFrom start)
  let _ ← ctx.check (·.infer e)
  return (e, rest)

def nameExpr (below : Below m n) (ctx : Context) (r : Region) (h : r.size ≤ n) :
    m (Step r Expr) := do
  let start := r.head.span
  let ((segments, span), r₁) ← path r "identifier"
  if let some (_, r₂) := r₁.accept? .colonColon then
    if r₂.headIs .leftBrace then
      return ← r₂.read (construction below ctx segments start r₂ (r₂.within h))
  if r₁.headIs .leftParen then
    return ← r₁.read (call below ctx segments start r₁ (r₁.within h))
  variableExpr ctx segments span start r₁

/-! ### Functions without a name -/

def beginsLambda (r : Region) : Bool :=
  r.headIs .leftParen && (r.peekIs .identifier 1 || r.peekIs .rightParen 1) && r.peekIs .colon 2

/-- A function without a name: `(x: A): R -> { ... }`. -/
def lambda (below : Below m n) (ctx : Context) (r : Region) (h : r.size ≤ n) :
    m (Step r Expr) := do
  let start := r.head.span
  let name ← modifyGet fun (reg : Registry) => reg.nameAnonymous
  let scope ← ctx.openScope .function
  let (header, r₁) ← r.carveParens
  let (params, isVariadic) ← parameters { ctx with scope } header
  let (_, r₂) ← r₁.takeNamed .colon "':' and a return type after lambda parameters"
  let (result, r₃) ← r₂.read (ctx.type r₂ "type after anonymous function header definition")
  let (_, r₄) ← r₃.takeNamed .arrow "'->' after lambda parameters"
  let traits : FunctionTraits := { isVariadic, isAnonymous := true }
  ctx.enter start fun reg =>
    reg.defineFunction ⟨⟨name, name, start⟩, params.map (·.type), result, traits⟩
  let inner : Context := { ctx with scope }
  let (b, r₅) ← r₄.read (body below inner ⟨name, result, isVariadic⟩ r₄ (r₄.within h))
  let f : Routine :=
    { name, internal := name, params, result, body := some b, traits
      visibility := .inherited
      span := r₅.spanFrom start }
  return (.lambda f, r₅)

/-! ### Operands -/

def parenthesized (below : Below m n) (ctx : Context) (r : Region) (h : r.size ≤ n) :
    m (Step r Expr) := do
  let (inner, rest) ← r.carveParens
  if !inner.hasNext then ctx.fail (.missing "expression inside parentheses") r.head.span
  let (e, left) ← below.expression ctx inner (inner.below h)
  left.finish
  return (e, rest)

def arrayExpr (below : Below m n) (ctx : Context) (r : Region) (h : r.size ≤ n) :
    m (Step r Expr) := do
  let (inner, rest) ← r.carveBrackets
  let elements ← inner.items h fun r₀ h₀ _ => below.expression ctx r₀ h₀
  return (.array elements (rest.spanFrom r.head.span), rest)

/-- The further arguments of the function around. -/
def variadicExpr (ctx : Context) (r : Region) : m (Step r Expr) := do
  let (t, rest) ← r.take .ellipsis
  if !(← Account.routine ctx).any (·.isVariadic) then ctx.fail .variadicOutside t.span
  return (.variadic t.span, rest)

def primary (below : Below m n) (ctx : Context) (r : Region) (h : r.size ≤ n) :
    m (Step r Expr) := do
  match r.next? with
  | none => throw (r.fail (.missing "expression, but reached end of block"))
  | some (t, rest) =>
    if t.kind.isLiteral then return (.literal (← literal ctx.source t) t.span, rest)
    match t.kind with
    | .identifier => nameExpr below ctx r h
    | .leftParen => parenthesized below ctx r h
    | .leftBracket => arrayExpr below ctx r h
    | .ellipsis => variadicExpr ctx r
    | _ => throw (r.fail (.notAnExpression t.lexeme))

/-- An index behind `array`, which began at `start`. -/
def indexed (below : Below m n) (ctx : Context) (start : Span) (array : Expr) (r : Region)
    (h : r.size ≤ n) : m (Step r Expr) := do
  let (inner, rest) ← r.carveBrackets
  if !inner.hasNext then ctx.fail (.missing "array index accessor after '['") rest.last
  let (index, left) ← below.expression ctx inner (inner.below h)
  left.finish
  ctx.check (·.checkIndex index)
  let e := .index array index (rest.spanFrom start)
  let _ ← ctx.check (·.infer e)
  return (e, rest)

def postfixOp? : Kind → Option UnaryOp
  | .plusPlus => some .postIncrement
  | .minusMinus => some .postDecrement
  | _ => none

/-- One more index, increment or decrement behind `e`, which began at `start`. -/
def operatorBehind? (below : Below m n) (ctx : Context) (start : Span) (e : Expr) (r : Region)
    (h : r.size ≤ n) : m (Option (Step r Expr)) := do
  let some (t, rest) := r.next? | return none
  if t.kind = .leftBracket then return some (← indexed below ctx start e r h)
  let some op := postfixOp? t.kind | return none
  ctx.check (·.checkIncrement e)
  return some (.unary op e (rest.spanFrom start), rest)

def postfixes (below : Below m n) (ctx : Context) (r : Region) (h : r.size ≤ n) :
    m (Step r Expr) := do
  let start := r.head.span
  let (e, r₁) ← primary below ctx r h
  r₁.loop h e fun r₀ h₀ e => operatorBehind? below ctx start e r₀ (Region.le_of_lt h₀)

/-! ### Operators -/

def prefixOp? : Kind → Option UnaryOp
  | .bang => some .not
  | .minus => some .negate
  | .tilde => some .complement
  | .plusPlus => some .preIncrement
  | .minusMinus => some .preDecrement
  | .star => some .dereference
  | .ampersand => some .addressOf
  | _ => none

def unary (below : Below m n) (ctx : Context) (r : Region) (h : r.size ≤ n) :
    m (Step r Expr) := do
  match r.next? with
  | some (t, r₁) =>
    match prefixOp? t.kind with
    | some op =>
      let (operand, r₂) ← r₁.read (nested ctx r₁ fun ctx => below.unary ctx r₁ (r₁.below h))
      if op = .preIncrement ∨ op = .preDecrement then ctx.check (·.checkIncrement operand)
      return (.unary op operand (r₂.spanFrom t.span), r₂)
    | none => postfixes below ctx r h
  | none => postfixes below ctx r h

/-- Powers, which group to the right. -/
def power (below : Below m n) (ctx : Context) (r : Region) (h : r.size ≤ n) :
    m (Step r Expr) := do
  let start := r.head.span
  let (base, r₁) ← unary below ctx r h
  match r₁.accept? .starStar with
  | none => return (base, r₁)
  | some (_, r₂) =>
    let (exponent, r₃) ← r₂.read (below.power ctx r₂ (r₂.below h))
    return (.binary (.arithmetic .pow) base exponent (r₃.spanFrom start), r₃)

def link? (op? : Kind → Option BinaryOp)
    (operand : (r : Region) → r.size ≤ n → m (Step r Expr)) (start : Span) (lhs : Expr)
    (r : Region) (h : r.size ≤ n) : m (Option (Step r Expr)) := do
  let some (t, r₁) := r.next? | return none
  let some op := op? t.kind | return none
  let (rhs, r₂) ← r₁.read (operand r₁ (r₁.within h))
  return some (.binary op lhs rhs (r₂.spanFrom start), r₂)

/-- Operands with operators of one level between them, which group to the left. -/
def chain (op? : Kind → Option BinaryOp)
    (operand : (r : Region) → r.size ≤ n → m (Step r Expr)) (r : Region) (h : r.size ≤ n) :
    m (Step r Expr) := do
  let start := r.head.span
  let (first, r₁) ← operand r h
  r₁.loop h first fun r₀ h₀ lhs => link? op? operand start lhs r₀ (Region.le_of_lt h₀)

def productOp? : Kind → Option BinaryOp
  | .star => some (.arithmetic .mul)
  | .slash => some (.arithmetic .div)
  | .percent => some (.arithmetic .mod)
  | _ => none

def sumOp? : Kind → Option BinaryOp
  | .plus => some (.arithmetic .add)
  | .minus => some (.arithmetic .sub)
  | _ => none

def comparisonOp? : Kind → Option BinaryOp
  | .equal => some (.comparison .eq)
  | .notEqual => some (.comparison .ne)
  | .less => some (.comparison .lt)
  | .lessEqual => some (.comparison .le)
  | .greater => some (.comparison .gt)
  | .greaterEqual => some (.comparison .ge)
  | _ => none

def logicalOp? : Kind → Option BinaryOp
  | .andAnd => some (.logical .and)
  | .orOr => some (.logical .or)
  | _ => none

def logical (below : Below m n) (ctx : Context) : (r : Region) → r.size ≤ n → m (Step r Expr) :=
  chain logicalOp? (chain comparisonOp? (chain sumOp? (chain productOp? (power below ctx))))

def assignOp? : Kind → Option AssignOp
  | .assign => some .set
  | .plusAssign => some .add
  | .minusAssign => some .sub
  | .starAssign => some .mul
  | .slashAssign => some .div
  | .percentAssign => some .mod
  | .andAssign => some .bitAnd
  | .orAssign => some .bitOr
  | .caretAssign => some .bitXor
  | _ => none

def isPlace : Expr → Bool
  | .identifier _ | .member .. | .index .. => true
  | _ => false

/-- An assignment, or what stands on the left of one. -/
def assignment (below : Below m n) (ctx : Context) (r : Region) (h : r.size ≤ n) :
    m (Step r Expr) := do
  let start := r.head.span
  let (target, r₁) ← logical below ctx r h
  let some (t, r₂) := r₁.next? | return (target, r₁)
  let some op := assignOp? t.kind | return (target, r₁)
  if !isPlace target then ctx.fail .invalidTarget t.span
  let (value, r₃) ← r₂.read (below.expression ctx r₂ (r₂.below h))
  let span := r₃.spanFrom start
  ctx.check (·.checkAssignment target value span)
  return (.assign op target value span, r₃)

def expression (below : Below m n) (ctx : Context) (r : Region) (h : r.size ≤ n) :
    m (Step r Expr) :=
  nested ctx r fun ctx =>
    if beginsLambda r then lambda below ctx r h else assignment below ctx r h

end Grammar
end OnePass
