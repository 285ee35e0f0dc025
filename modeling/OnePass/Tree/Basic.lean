import OnePass.Registry.Basic

/-!
The tree of a program. Names are resolved in it: an identifier carries what it is bound to, a call
its target, a block the scope of its statements. Only a call of a function that is declared further
down has no target yet; it gets one when the unit has been read to its end.
-/

namespace OnePass

inductive Visibility where
  | inherited | publicly | privately
deriving DecidableEq

inductive Literal where
  /-- The suffix `L` makes an integer `long`. -/
  | integer (value : Nat) (long : Bool)
  /-- The bits of the nearest double; `double` is the suffix `D`. -/
  | float (bits : UInt64) (double : Bool)
  | string (value : String)
  | char (value : Char)
  | bool (value : Bool)
  | nil

inductive ArithmeticOp where
  | add | sub | mul | div | mod | pow
deriving DecidableEq

inductive ComparisonOp where
  | eq | ne | lt | le | gt | ge
deriving DecidableEq

inductive LogicalOp where
  | and | or
deriving DecidableEq

inductive BinaryOp where
  | arithmetic (op : ArithmeticOp)
  | comparison (op : ComparisonOp)
  | logical (op : LogicalOp)
deriving DecidableEq

inductive UnaryOp where
  | not | negate | complement
  | preIncrement | preDecrement | postIncrement | postDecrement
  | dereference | addressOf
deriving DecidableEq

inductive AssignOp where
  | set | add | sub | mul | div | mod | bitAnd | bitOr | bitXor
deriving DecidableEq

inductive Binding where
  | variable (internal : String) (scope : ScopeId)
  | function (internal : String)
deriving DecidableEq

inductive Target where
  | function (internal : String)
  | variable (internal : String) (scope : ScopeId)
  /-- Declared further down. -/
  | deferred
deriving DecidableEq

structure Identifier where
  name : String
  binding : Binding
  span : Span

structure Member where
  name : String
  span : Span

structure Param where
  name : String
  internal : String
  type : Ty
  span : Span

structure StructField where
  name : String
  type : Ty
  span : Span

inductive StructBody where
  | fields (fields : List StructField)
  /-- The internal name of the struct whose fields these are. -/
  | alias (internal : String)

structure StructDecl where
  name : String
  internal : String
  body : StructBody
  visibility : Visibility
  span : Span

mutual

inductive Expr where
  | literal (value : Literal) (span : Span)
  | identifier (id : Identifier)
  /-- The arguments beyond the parameters of a variadic function. -/
  | variadic (span : Span)
  | member (base : Identifier) (members : List Member) (span : Span)
  | index (array : Expr) (index : Expr) (span : Span)
  | call (call : Call)
  | binary (op : BinaryOp) (lhs rhs : Expr) (span : Span)
  | unary (op : UnaryOp) (operand : Expr) (span : Span)
  | assign (op : AssignOp) (target value : Expr) (span : Span)
  | construct (name internal : String) (fields : List Entry) (span : Span)
  | array (elements : List Expr) (span : Span)
  | lambda (routine : Routine)

/-- A name with a value: a field of a struct that is built, or a member of an enum. -/
structure Entry where
  name : String
  value : Expr
  span : Span

structure Call where
  name : String
  /-- The segments of the name, joined. -/
  qualified : String
  args : List Expr
  argTypes : List Ty
  target : Target
  scope : ScopeId
  span : Span

/-- A function, declared or written as an expression. -/
structure Routine where
  name : String
  internal : String
  params : List Param
  result : Ty
  /-- Foreign functions have none. -/
  body : Option Block
  traits : FunctionTraits
  visibility : Visibility
  span : Span

structure Block where
  stmts : List Stmt
  scope : ScopeId
  span : Span

structure VarDecl where
  name : String
  internal : String
  type : Ty
  value : Option Expr
  mutable : Bool
  visibility : Visibility
  scope : ScopeId
  span : Span

inductive Stmt where
  | package (name : String) (span : Span)
  | imports (path items : List String) (span : Span)
  | module (path : List String) (body : Block) (span : Span)
  | function (routine : Routine)
  | struct (decl : StructDecl)
  | enum (name internal : String) (members : List Entry) (scope : ScopeId) (span : Span)
  | variable (decl : VarDecl)
  | cond (condition : Expr) (yes : Block) (no : Option Block) (span : Span)
  | while (condition : Expr) (body : Block) (span : Span)
  | for (init : Option Stmt) (condition step : Option Expr) (body : Block) (scope : ScopeId)
      (span : Span)
  | return (value : Option Expr) (span : Span)
  | break (span : Span)
  | continue (span : Span)
  | block (block : Block)
  | expr (value : Expr)

end

namespace Routine

def paramTypes (f : Routine) : List Ty := f.params.map (·.type)

def type (f : Routine) : Ty := .function f.paramTypes f.result .plain

end Routine

namespace Expr

def span : Expr → Span
  | literal _ s | variadic s | member _ _ s | index _ _ s | binary _ _ _ s | unary _ _ s
  | assign _ _ _ s | construct _ _ _ s | array _ s => s
  | identifier id => id.span
  | call c => c.span
  | lambda f => f.span

/-- The value of an integer literal without suffix, under any number of minus signs. -/
def literalValue? : Expr → Option Int
  | literal (.integer value false) _ => some value
  | unary .negate operand _ => operand.literalValue?.map (- ·)
  | _ => none

end Expr

def Stmt.span : Stmt → Span
  | .package _ s | .imports _ _ s | .module _ _ s | .enum _ _ _ _ s | .cond _ _ _ s | .while _ _ s
  | .for _ _ _ _ _ s | .return _ s | .break s | .continue s => s
  | .function f => f.span
  | .struct d => d.span
  | .variable d => d.span
  | .block b => b.span
  | .expr e => e.span

structure Program where
  path : String
  package : Option String
  body : Block

end OnePass
