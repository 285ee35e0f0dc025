import OnePass.Grammar.Expressions

/-!
Declarations: imports, modules, functions, structs, enums and variables. What a declaration enters is
there for the statements behind it; a function is there for its own body, a variable only behind its
initial value.
-/

namespace OnePass
namespace Grammar

open Token (Kind)

variable {m : Type → Type} [Monad m] [MonadExceptOf Diagnostic m] [MonadStateOf Registry m]
  [MonadLiftT (Except Diagnostic) m] [Account m] {n : Nat}

/-! ### Imports and modules -/

def importList (ctx : Context) (r : Region) : m (Step r (List String)) := do
  let (inner, rest) ← r.carveBraces
  let names ← items inner fun r₀ _ _ =>
    return (← r₀.takeNamed .identifier "an imported name").map (·.lexeme) id
  if names.isEmpty then ctx.fail .emptyImport rest.last
  return (names, rest)

/-- The module and the imported names: a list behind the path, or the last segment of it. -/
def importItems {r : Region} (ctx : Context) (segments : List String) (l : Left r) :
    m (Step r (List String × List String)) := do
  match l.accept? .colonColon with
  | some (_, r₁) =>
    let (names, r₂) ← r₁.read (importList ctx r₁)
    return ((segments, names), r₂)
  | none =>
    if segments.length < 2 then ctx.fail (.missing "'::' after module name") l.last
    return ((segments.dropLast, segments.getLast?.toList), l)

/-- An import: `import a::b::{x, y};` or `import a::b::x;`. -/
def importStmt (ctx : Context) (r : Region) : m (Step r Stmt) := do
  let (keyword, r₁) ← r.take .kwImport
  if ctx.scope ≠ Registry.global then ctx.fail .importNotGlobal keyword.span
  let ((segments, _), r₂) ← r₁.read (path r₁ "module name after 'import'")
  let ((module, names), r₃) ← importItems ctx segments r₂
  let (_, r₄) ← r₃.take .semicolon
  return (.imports module names (r₄.spanFrom keyword.span), r₄)

def openModules (scope : ScopeId) : List String → m ScopeId
  | [] => return scope
  | s :: segments => do
    let scope ← modifyGet fun (reg : Registry) => reg.openModule scope s
    openModules scope segments

/-- A module: `module a::b { ... }`. -/
def moduleStmt (below : Below m n) (ctx : Context) (r : Region) (h : r.size ≤ n) :
    m (Step r Stmt) := do
  let (keyword, r₁) ← r.take .kwModule
  ctx.requireModule .moduleInScope keyword.span
  let ((segments, _), r₂) ← r₁.read (path r₁ "module name")
  let scope ← openModules ctx.scope segments
  let (b, r₃) ← r₂.read (block below { ctx with scope } r₂ (r₂.within h))
  return (.module segments b (r₃.spanFrom keyword.span), r₃)

/-! ### Functions -/

/-- The words `extern` and `async` in any order and number. -/
def modifiers (r : Region) : m (Rest r FunctionTraits) :=
  loop r {} fun r₀ _ traits => do
    match r₀.accept? .kwExtern, r₀.accept? .kwAsync with
    | some (_, r₁), _ => return some ({ traits with isExtern := true }, r₁)
    | none, some (_, r₁) => return some ({ traits with isAsync := true }, r₁)
    | none, none => return none

def bodyOrNone (below : Below m n) (ctx : Context) (isExtern : Bool) (routine : Enclosing) (r : Region)
    (h : r.size ≤ n) : m (Step r (Option Block)) := do
  if isExtern then
    let (_, rest) ← r.take .semicolon
    return (none, rest)
  else
    let (b, rest) ← body below ctx routine r h
    return (some b, rest)

/-- A function: `fn name(params): R { ... }`. -/
def functionStmt (below : Below m n) (ctx : Context) (visibility : Visibility) (r : Region)
    (h : r.size ≤ n) : m (Step r Stmt) := do
  let start := r.head.span
  let (traits, r₁) ← modifiers r
  let (_, r₂) ← r₁.take .kwFn
  ctx.requireModule .functionInScope start
  let (name, r₃) ← r₂.takeNamed .identifier "function name after 'fn'"
  let scope ← ctx.openScope .function
  let (header, r₄) ← r₃.carveParens
  let (params, isVariadic) ← parameters { ctx with scope } header
  let traits := { traits with isVariadic }
  let (_, r₅) ← r₄.takeNamed .colon "':' and a return type after function parameters"
  let (result, r₆) ← r₅.read (ctx.type r₅ "return type")
  let qualified := (← get).qualify ctx.scope name.lexeme
  let types := params.map (·.type)
  let internal := Name.overload qualified types traits.isExtern
  ctx.enter name.span fun reg =>
    reg.defineFunction ⟨⟨qualified, internal, name.span⟩, types, result, traits⟩
  let routine : Enclosing := ⟨name.lexeme, result, isVariadic⟩
  let (b, r₇) ← r₆.read
    (bodyOrNone below { ctx with scope } traits.isExtern routine r₆ (r₆.within h))
  let f : Routine :=
    { name := name.lexeme
      internal, params, result
      body := b
      traits, visibility
      span := r₇.spanFrom start }
  return (.function f, r₇)

/-! ### Structs and enums -/

/-- The mark behind a field; the last field needs none. -/
def fieldEnd {r : Region} (l : Left r) : Except Diagnostic (Left r) :=
  match l.accept? .semicolon, l.accept? .comma with
  | some (_, rest), _ | none, some (_, rest) => .ok rest
  | none, none =>
    if l.hasNext then .error (l.fail (.expectedFound .semicolon l.head.lexeme)) else .ok l

/-- A field of the struct `internal`, which a pointer may already name. -/
def structField (ctx : Context) (internal : String) (before : List StructField) (r : Region) :
    m (Step r StructField) := do
  let (name, r₁) ← r.takeNamed .identifier "struct member name"
  let (_, r₂) ← r₁.takeNamed .colon "':' after struct member name"
  let (type, r₃) ← r₂.read (ctx.type r₂ "struct member type" (some internal))
  let r₄ ← fieldEnd r₃
  if before.any (·.name == name.lexeme) then
    ctx.fail (.duplicateVariable name.lexeme false) name.span
  return (⟨name.lexeme, type, r₄.spanFrom name.span⟩, r₄)

def structFields (ctx : Context) (internal : String) (r : Region) : m (List StructField) := do
  let (fields, _) ← loop r [] fun r₀ _ before => do
    if !r₀.hasNext then return none
    let (field, r₁) ← structField ctx internal before r₀
    return some (before ++ [field], r₁)
  return fields

/-- An alias: `= Other;`, where the other struct may be declared further down. -/
def structAlias (ctx : Context) (symbol : Symbol) (r : Region) : m (Step r StructBody) := do
  let ((segments, span), r₁) ← path r "struct name after '='"
  let (_, r₂) ← r₁.take .semicolon
  let reg ← get
  let name := Name.qualified segments
  let target := (reg.structName? ctx.scope none name).getD (reg.qualify ctx.scope name)
  ctx.enter symbol.span fun reg =>
    reg.defineStruct ctx.scope ⟨symbol, .alias ⟨Name.written segments, target, span⟩⟩
  return (.alias target, r₂)

/-- Fields in braces: `{ field: T; ... }`. -/
def structBody (ctx : Context) (symbol : Symbol) (r : Region) : m (Step r StructBody) := do
  let (inner, rest) ← r.carveBraces
  let fields ← declaring symbol.internal (structFields ctx symbol.internal inner)
  if fields.isEmpty then ctx.fail .emptyStruct symbol.span
  ctx.enter symbol.span fun reg =>
    reg.defineStruct ctx.scope ⟨symbol, .fields (fields.map fun f => ⟨f.name, f.type⟩)⟩
  return (.fields fields, rest)

def structStmt (ctx : Context) (visibility : Visibility) (r : Region) : m (Step r Stmt) := do
  let (keyword, r₁) ← r.take .kwStruct
  ctx.requireModule .structInScope keyword.span
  let (name, r₂) ← r₁.takeNamed .identifier "struct name after 'struct'"
  let internal := (← get).qualify ctx.scope name.lexeme
  let symbol : Symbol := ⟨name.lexeme, internal, name.span⟩
  let (body, r₃) ← match r₂.accept? .assign with
    | some (_, r₃) => r₃.read (structAlias ctx symbol r₃)
    | none => r₂.read (structBody ctx symbol r₂)
  let span := r₃.spanFrom keyword.span
  return (.struct { name := name.lexeme, internal, body, visibility, span }, r₃)

def enumMember (below : Below m n) (ctx : Context) (internal : String) (r : Region) (h : r.size ≤ n) :
    m (Step r Entry) := do
  let (name, r₁) ← r.takeNamed .identifier "enum member name"
  let (_, r₂) ← r₁.takeNamed .colon "':' after enum member name"
  if !r₂.head.kind.isLiteral && !r₂.headIs .minus then
    throw (r₂.fail (.enumValue name.lexeme))
  let (value, r₃) ← r₂.read (below.unary ctx r₂ (r₂.below h))
  let symbol : Symbol := ⟨name.lexeme, Name.qualified [internal, name.lexeme], name.span⟩
  ctx.enter name.span fun reg => reg.defineMarker ctx.scope symbol .enumMember
  return (⟨name.lexeme, value, r₃.spanFrom name.span⟩, r₃)

/-- An enum: `enum name { member: literal, ... }`. -/
def enumStmt (below : Below m n) (ctx : Context) (r : Region) (h : r.size ≤ n) :
    m (Step r Stmt) := do
  let (keyword, r₁) ← r.take .kwEnum
  let (name, r₂) ← r₁.takeNamed .identifier "enum name after 'enum'"
  let internal := (← get).qualify ctx.scope name.lexeme
  ctx.enter name.span fun reg =>
    reg.defineMarker ctx.scope ⟨name.lexeme, internal, name.span⟩ .enumType
  let scope ← ctx.openScope .block
  let (inner, rest) ← r₂.carveBraces
  let members ← inner.items h fun r₀ h₀ _ =>
    enumMember below { ctx with scope } internal r₀ (Region.le_of_lt h₀)
  return (.enum name.lexeme internal members scope (rest.spanFrom keyword.span), rest)

/-! ### Variables -/

def annotation {r : Region} (ctx : Context) (l : Left r) :
    m (Step r (Option (Ty × Span))) := do
  match l.accept? .colon with
  | none => return (none, l)
  | some (_, r₁) =>
    let (type, r₂) ← r₁.read (ctx.type r₁ "type after ':'")
    return (some (type, r₂.spanFrom r₁.head.span), r₂)

def initialValue {r : Region} (below : Below m n) (ctx : Context) (l : Left r) (h : r.size ≤ n) :
    m (Step r (Option Expr)) := do
  match l.accept? .assign with
  | none => return (none, l)
  | some (_, r₁) =>
    let (value, r₂) ← r₁.read (below.expression ctx r₁ (r₁.below h))
    return (some value, r₂)

def isUninformative (t : Ty) : Bool :=
  t.isNil || t.isVoid ||
    match t with
    | .array element _ _ => element.isKind .unknown
    | t => t.isKind .unknown

def variableType (ctx : Context) (name : Token) (mutable : Bool) (given : Option (Ty × Span))
    (value : Option Expr) : m Ty := do
  match given, value with
  | some (type, span), some value =>
    ctx.check (·.checkDeclaration type span value)
    return type
  | some (type, _), none =>
    if !mutable then ctx.fail (.constantWithoutValue name.lexeme) name.span
    return type
  | none, some value =>
    let type ← ctx.check (·.infer value)
    if isUninformative type then ctx.fail (.uninferable name.lexeme) value.span
    return type.rvalue
  | none, none => ctx.fail (.variableWithoutType name.lexeme) name.span

/-- A variable: `let name: T = value` or `const name: T = value`. The keyword has been read. -/
def variableDecl (below : Below m n) (ctx : Context) (visibility : Visibility) (keyword : Token)
    (r : Region) (h : r.size ≤ n) : m (Step r VarDecl) := do
  let mutable := keyword.kind == .kwLet
  let (name, r₁) ← r.takeNamed .identifier "variable name"
  let (given, r₂) ← annotation ctx r₁
  let (value, r₃) ← initialValue below ctx r₂ h
  let type ← variableType ctx name mutable given value
  let reg ← get
  let isGlobal := reg.declares ctx.scope
  let type := type.withFlags { mutable, global := isGlobal }
  let internal := if isGlobal then reg.qualify ctx.scope name.lexeme else name.lexeme
  ctx.enter name.span fun reg =>
    reg.defineVariable ctx.scope ⟨⟨name.lexeme, internal, name.span⟩, type⟩
  let decl : VarDecl :=
    { name := name.lexeme
      internal, type, value, mutable, visibility
      scope := ctx.scope
      span := r₃.spanFrom keyword.span }
  return (decl, r₃)

end Grammar
end OnePass
