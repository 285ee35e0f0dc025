import OnePass.Grammar.Statements
import OnePass.Proofs.Grammar.Gives
import OnePass.Proofs.Tree.Placement
import OnePass.Proofs.Typing.Heredity

/-!
What has been checked of a part of a tree when it was read. A part is formed against the registry of that
moment; its own parts were formed before it and against smaller registries. `Reading.Built` says that
every part of a tree was formed against a registry that the reading has passed through.
-/

namespace OnePass

open Grammar

/-- The segments of a path. -/
def IsPath (T : Token → Prop) (segments : List String) : Prop :=
  segments ≠ [] ∧ ∀ s ∈ segments, Word T s

theorem Spells.isPath {T : Token → Prop} {ts : List Token} {segments : List String}
    (h : Spells ts segments) (hT : ∀ t ∈ ts, T t) : IsPath T segments := by
  induction h with
  | @name t hk =>
      refine ⟨List.cons_ne_nil _ _, fun s hs => ?_⟩
      exact List.mem_singleton.mp hs ▸ ⟨t, hT t List.mem_cons_self, hk, rfl⟩
  | @next ts segments c t _ _ hk ih =>
      refine ⟨by simp, fun s hs => ?_⟩
      rcases List.mem_append.mp hs with hs | hs
      · exact (ih fun u hu => hT u (List.mem_append_left _ hu)).2 s hs
      · exact List.mem_singleton.mp hs ▸ ⟨t, hT t (by simp), hk, rfl⟩

theorem IsPath.named {T : Token → Prop} {segments : List String} (h : IsPath T segments) :
    Named T (Name.qualified segments) :=
  .qualified (fun s hs => .word (h.2 s hs)) h.1

/-- A function, a struct or a variable goes by a qualified name, a function by the types of its parameters as
well. -/
def Stmt.GoesBy (qualified : String) : Stmt → Prop
  | .function f => f.internal = Name.overload qualified f.paramTypes f.traits.isExtern
  | .struct d => d.internal = qualified
  | .variable d => d.internal = qualified
  | _ => False

/-- A module is read in the scope that is noted for its path, and what is declared in a module goes by the path
of the module and its name. -/
def Stmt.Titled (reg : Registry) (scope : ScopeId) : Stmt → Prop
  | .module path body _ =>
    path ≠ [] ∧ reg.module? (Name.qualified (reg.modulePath scope ++ path)) = some body.scope
  | s@(.function f) => s.GoesBy (reg.qualify scope f.name)
  | s@(.struct d) => s.GoesBy (reg.qualify scope d.name)
  | s@(.variable d) => s.GoesBy (if reg.declares scope then reg.qualify scope d.name else d.name)
  | _ => True

/-- The struct that a path stands for in a scope or, if there is none, the one that would be declared there under
the path. -/
def Registry.aliasTarget (reg : Registry) (scope : ScopeId) (segments : List String) : String :=
  (reg.structName? scope none (Name.qualified segments)).getD (reg.qualify scope (Name.qualified segments))

/-- What a struct that is declared in a scope has for a layout: its fields, or what the path behind an alias is
taken for. -/
def StructBody.Describes (T : Token → Prop) (reg : Registry) (scope : ScopeId) : StructBody → Layout → Prop
  | .fields written, layout => layout = .fields (written.map fun f => ⟨f.name, f.type⟩)
  | .alias target, layout =>
    ∃ segments span, IsPath T segments ∧ target = reg.aliasTarget scope segments ∧
      layout = .alias ⟨Name.written segments, target, span⟩

/-- An integer has no more than 64 bits. -/
def Literal.Fits : Literal → Prop
  | .integer value _ => value < twoTo 64
  | _ => True

/-- The place of what is read in a context. -/
def Grammar.Context.site (ctx : Context) : Site := ⟨ctx.scope, ctx.inLoop, ctx.routine⟩

namespace Reading

variable (rd : Reading)

/-- An identifier stands for what its path is bound to. -/
def Binds (reg : Registry) (scope : ScopeId) (id : Identifier) : Prop :=
  ∃ segments, IsPath rd.token segments ∧ id.name = Name.written segments ∧
    reg.bindingOf? scope segments = some id.binding

/-- A call has the target that was found for it, if one was. -/
structure Aims (reg : Registry) (id : ScopeId) (c : Call) : Prop where
  scope : c.scope = id
  path : ∃ segments, IsPath rd.token segments ∧ c.name = Name.written segments ∧
    c.qualified = Name.qualified segments
  argTypes : List.Forall₂ (fun a t => Typing.infer reg id a = .ok t) c.args c.argTypes
  target : ∃ found, reg.target? { c with target := .deferred } = .ok found ∧
    c.target = found.getD .deferred

/-- A routine has types as they are written. -/
structure Signs (f : Routine) : Prop where
  params : ∀ p ∈ f.params, p.type.Written (Named rd.token)
  result : f.result.Written (Named rd.token)

/-- The type of a variable is written behind a colon and takes the initial value, or it is that of the value. -/
def Types (reg : Registry) (scope : ScopeId) (mark : Token.Kind) (type : Ty) : Option Expr → Prop
  | none => mark = .colon ∧ type.Written (Named rd.token)
  | some value =>
    mark = .colon ∧ type.Written (Named rd.token) ∧
        (∃ source span, Typing.Setting.checkDeclaration ⟨reg, scope, source⟩ type span value = .ok ()) ∨
      mark = .assign ∧
        ∃ t, Typing.infer reg scope value = .ok t ∧ isUninformative t = false ∧ type = t.rvalue

/-- The registry is that behind the entry of a variable that is declared in a scope. What stands behind the name
says where its type is from. -/
def Lets (reg : Registry) (scope : ScopeId) (d : VarDecl) : Prop :=
  ∃ reg₀ type name mark, rd.Ready reg₀ scope ∧
    d.type = type.withFlags { mutable := d.mutable, global := reg₀.declares scope } ∧
    reg₀.defineVariable scope ⟨⟨d.name, d.internal, name.span⟩, d.type⟩ = (.ok (), reg) ∧
    [name, mark] <:+: Region.significant rd.tokens ∧ rd.Types reg₀ scope mark.kind type d.value

/-- The registry is that behind the entry of a struct that is declared in a scope. -/
def Introduces (reg : Registry) (scope : ScopeId) (symbol : Symbol) (body : StructBody) : Prop :=
  ∃ reg₀ layout, rd.Reaches rd.start reg₀ ∧ reg₀.Knows scope ∧
    reg₀.defineStruct scope ⟨symbol, layout⟩ = (.ok (), reg) ∧ body.Describes rd.token reg₀ scope layout

/-- What is known of a part when it is read, its own parts aside. -/
def Formed (reg : Registry) (site : Site) : Node → Prop
  | .block b => reg.Knows b.scope
  | .stmt s@(.module ..) => s.Titled reg site.scope
  | .stmt s@(.struct d) =>
    s.Titled reg site.scope ∧ ∃ span, rd.Introduces reg site.scope ⟨d.name, d.internal, span⟩ d.body
  | .stmt s@(.function f) => rd.Signs f ∧ s.Titled reg site.scope
  | .stmt s@(.variable d) =>
    (d.scope = site.scope ∧ s.Titled reg site.scope) ∧ rd.Lets reg site.scope d
  | .stmt (.return value span) =>
    ∃ f source, site.routine = some f ∧
      Typing.Setting.checkReturn ⟨reg, site.scope, source⟩ f.name f.result value span = .ok ()
  | .stmt _ => True
  | .expr (.identifier id) => rd.Binds reg site.scope id
  | .expr e@(.member base ..) =>
    rd.Binds reg site.scope base ∧ ∃ t, Typing.infer reg site.scope e = .ok t
  | .expr e@(.index _ index _) =>
    (∃ source, Typing.Setting.checkIndex ⟨reg, site.scope, source⟩ index = .ok ()) ∧
      ∃ t, Typing.infer reg site.scope e = .ok t
  | .expr (.call c) => rd.Aims reg site.scope c
  | .expr (.unary op operand _) =>
    op ∈ [UnaryOp.preIncrement, .preDecrement, .postIncrement, .postDecrement] →
      ∃ source, Typing.Setting.checkIncrement ⟨reg, site.scope, source⟩ operand = .ok ()
  | .expr (.assign _ target value span) =>
    isPlace target = true ∧
      ∃ source, Typing.Setting.checkAssignment ⟨reg, site.scope, source⟩ target value span = .ok ()
  | .expr (.construct name internal entries span) =>
    (∃ segments, IsPath rd.token segments ∧ name = Name.written segments ∧
      reg.structName? site.scope none (Name.qualified segments) = some internal) ∧
      ∃ source,
        Typing.Setting.checkConstruction ⟨reg, site.scope, source⟩ name internal entries span = .ok ()
  | .expr (.lambda f) => rd.Signs f
  | .expr (.literal value _) => value.Fits
  | .expr (.variadic _) | .expr (.binary ..) | .expr (.array ..) => True

/-- What begins with the span is read when the registry is there. -/
def Begins (reg : Registry) (span : Span) : Prop :=
  ∃ p, rd.Leads p rd.start reg ∧ span.Begins rd.tokens p

/-- The variables that a name may stand for are those that were there when it was met. What is read between
the name of a function and the end of the call leaves them as they are. -/
def Timely (reg : Registry) (site : Site) : Node → Prop
  | .expr (.identifier id) | .expr (.member id ..) => rd.Begins reg id.span
  | .expr (.call c) =>
    ∃ reg₀, rd.Begins reg₀ c.span ∧ reg₀.Knows site.scope ∧ rd.Reaches reg₀ reg ∧
      ∀ id, reg₀.Knows id → reg.variablesIn id = reg₀.variablesIn id
  | _ => True

/-- Every part of a tree was formed on the way to a registry, in a place where it may stand. -/
def Built (reg : Registry) : Site → Node → Prop :=
  Every fun site n => ∃ reg₀, rd.Reaches rd.start reg₀ ∧ rd.Reaches reg₀ reg ∧
    reg₀.Knows site.scope ∧ n.Sited reg₀ site ∧ rd.Timely reg₀ site n ∧ rd.Formed reg₀ site n

variable {rd} {reg reg₀ reg₁ : Registry} {site : Site} {n : Node}

namespace Built

theorem mono (h : rd.Built reg site n) (hreach : rd.Reaches reg reg₁) : rd.Built reg₁ site n :=
  h.imp fun _ _ ⟨reg₀, h₀, hr, hf⟩ => ⟨reg₀, h₀, hr.trans hreach, hf⟩

theorem intro (hready : rd.Ready reg₀ site.scope) (hreach : rd.Reaches reg₀ reg)
    (hf : rd.Formed reg₀ site n) (hc : ∀ child ∈ n.children site, rd.Built reg child.1 child.2)
    (hsited : n.Sited reg₀ site) (htimely : rd.Timely reg₀ site n) :
    rd.Built reg site n :=
  every_iff.mpr ⟨⟨reg₀, hready.reached, hreach, hready.knows, hsited, htimely, hf⟩, hc⟩

theorem child (h : rd.Built reg site n) {site' : Site} {n' : Node}
    (hc : (site', n') ∈ n.children site) : rd.Built reg site' n' :=
  Every.child h hc

theorem formed (h : rd.Built reg site n) :
    ∃ reg₀, rd.Reaches rd.start reg₀ ∧ rd.Reaches reg₀ reg ∧ reg₀.Knows site.scope ∧
      rd.Formed reg₀ site n :=
  let ⟨reg₀, h₀, hr, hk, _, _, hf⟩ := (every_iff.mp h).1
  ⟨reg₀, h₀, hr, hk, hf⟩

theorem sited (h : rd.Built reg site n) : n.Sited reg site :=
  let ⟨_, _, hr, hk, hs, _⟩ := (every_iff.mp h).1
  hs.mono hk hr.grows

end Built

/-! ### Names in inferred types -/

theorem structName?_named {T : Token → Prop} (hreg : reg.Tidy T) {id : ScopeId}
    {declaring : Option String} {name internal : String} (hn : Named T name)
    (h : reg.structName? id declaring name = some internal) : Named T internal := by
  obtain ⟨depth, _, rfl⟩ := List.mem_map.mp (List.mem_of_find?_eq_some h)
  refine .qualified ?_ (by simp)
  intro s hs
  rcases List.mem_append.mp hs with hs | hs
  · exact .word (hreg.modulePath s (List.mem_of_mem_take hs))
  · exact List.mem_singleton.mp hs ▸ hn

section Hereditary

variable {P : Ty → Prop} (hP : Ty.Hereditary P) (hwritten : ∀ t, t.Written (Named rd.token) → P t)

include hP hwritten

theorem Signs.type {f : Routine} (h : rd.Signs f) : P f.type := by
  refine hP.function.mpr ⟨fun p hp => ?_, hwritten _ h.result⟩
  obtain ⟨param, hm, rfl⟩ := List.mem_map.mp hp
  exact hwritten _ (h.params param hm)

/-- The types that an expression brings with it are made of names that were read. -/
theorem Built.brings (h : rd.Built reg site n) : Every (fun _ n => n.Brings P) site n := by
  refine h.imp fun site n ⟨reg₀, h₀, _, _, _, _, hf⟩ => ?_
  unfold Node.Brings
  split
  · obtain ⟨⟨segments, hpath, _, hs⟩, _⟩ := hf
    exact hwritten _ ⟨.plain, structName?_named (h₀.tidy rd.wellFormed rd.tidy) hpath.named hs⟩
  · exact Signs.type hP hwritten hf
  · trivial

end Hereditary

/-- The type of an expression that was read has no names in it but those of the registry and those that
were read. -/
theorem Built.infer_mentions {e : Expr} {t : Ty} (hreg : reg.Tidy rd.token)
    (h : rd.Built reg₁ site (.expr e)) (ht : Typing.infer reg site.scope e = .ok t) :
    t.Mentions (Named rd.token) :=
  have brings := h.brings Ty.hereditary_mentions fun _ ht => ht.mentions
  Typing.infer_hereditary Ty.hereditary_mentions hreg.types brings ht

end Reading
end OnePass
