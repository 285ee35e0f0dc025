import OnePass.Grammar.Basic
import OnePass.Proofs.Success
import OnePass.Tree.Calls

/-!
The parts of a tree and where they stand. A part is reached from the whole one child at a time, and each
child stands where its parent says: statements of a block in the scope of the block, the body of a
function outside all loops around the function. `Every` says that something holds of all parts.

Replacing the calls of a tree moves no part: what stands somewhere afterwards has come from what stood
there before. `Expr.Becomes` and `Stmt.Becomes` say form by form what comes of what, for proofs that go by
the forms.
-/

namespace OnePass

/-- Where a part of a tree stands. -/
structure Site where
  scope : ScopeId := Registry.global
  /-- Is there a loop between this place and the function around it? -/
  inLoop : Bool := false
  routine : Option Grammar.Enclosing := none

namespace Site

/-- The body of a routine that stands here. -/
def inside (site : Site) (f : Routine) : Site :=
  { site with inLoop := false, routine := some ⟨f.name, f.result, f.traits.isVariadic⟩ }

end Site

/-- A part of a tree. -/
inductive Node where
  | block (b : Block)
  | stmt (s : Stmt)
  | expr (e : Expr)

namespace Node

/-- The body of a routine, if it has one. -/
def ofBody (site : Site) (f : Routine) : List (Site × Node) :=
  f.body.toList.map fun b => (site.inside f, .block b)

/-- The parts directly below one, each with its place. -/
def children (site : Site) : Node → List (Site × Node)
  | block b => b.stmts.map fun s => ({ site with scope := b.scope }, stmt s)
  | stmt (.package ..) | stmt (.imports ..) | stmt (.struct _) | stmt (.break _)
  | stmt (.continue _) => []
  | stmt (.module _ body _) => [(site, block body)]
  | stmt (.function f) => ofBody site f
  | stmt (.enum _ _ members scope _) => members.map fun m => ({ site with scope }, expr m.value)
  | stmt (.variable d) => d.value.toList.map fun e => (site, expr e)
  | stmt (.cond condition yes no _) =>
    [(site, expr condition), (site, block yes)] ++ no.toList.map fun b => (site, block b)
  | stmt (.while condition body _) =>
    [(site, expr condition), ({ site with inLoop := true }, block body)]
  | stmt (.for init condition step body scope _) =>
    let inner := { site with scope }
    (init.toList.map fun s => (inner, stmt s)) ++ (condition.toList.map fun e => (inner, expr e))
      ++ (step.toList.map fun e => (inner, expr e)) ++ [({ inner with inLoop := true }, block body)]
  | stmt (.return value _) => value.toList.map fun e => (site, expr e)
  | stmt (.block b) => [(site, block b)]
  | stmt (.expr e) => [(site, expr e)]
  | expr (.literal ..) | expr (.identifier _) | expr (.variadic _) | expr (.member ..) => []
  | expr (.index array index _) => [(site, expr array), (site, expr index)]
  | expr (.call c) => c.args.map fun e => (site, expr e)
  | expr (.binary _ lhs rhs _) => [(site, expr lhs), (site, expr rhs)]
  | expr (.unary _ operand _) => [(site, expr operand)]
  | expr (.assign _ target value _) => [(site, expr target), (site, expr value)]
  | expr (.construct _ _ fields _) => fields.map fun f => (site, expr f.value)
  | expr (.array elements _) => elements.map fun e => (site, expr e)
  | expr (.lambda f) => ofBody site f

end Node

/-- The part `n'` stands at `site'` in the tree `n`, which stands at `site`. -/
inductive Occurs : Site → Node → Site → Node → Prop where
  | here {site : Site} {n : Node} : Occurs site n site n
  | under {site site' : Site} {n n' : Node} {child : Site × Node} (member : child ∈ n.children site)
      (inside : Occurs child.1 child.2 site' n') : Occurs site n site' n'

theorem Occurs.trans {site site' site'' : Site} {n n' n'' : Node} (h : Occurs site n site' n')
    (h' : Occurs site' n' site'' n'') : Occurs site n site'' n'' := by
  induction h with
  | here => exact h'
  | under member _ ih => exact .under member (ih h')

/-- All parts of a tree have a property of theirs and of their places. -/
def Every (P : Site → Node → Prop) (site : Site) (n : Node) : Prop :=
  ∀ site' n', Occurs site n site' n' → P site' n'

section Every

variable {P Q : Site → Node → Prop} {site : Site} {n : Node}

theorem every_iff :
    Every P site n ↔ P site n ∧ ∀ child ∈ n.children site, Every P child.1 child.2 := by
  constructor
  · intro h
    exact ⟨h _ _ .here, fun child hc site' n' ho => h site' n' (.under hc ho)⟩
  · rintro ⟨hhere, hbelow⟩ site' n' ho
    cases ho with
    | here => exact hhere
    | under hc ho => exact hbelow _ hc site' n' ho

theorem Every.here (h : Every P site n) : P site n := (every_iff.mp h).1

theorem Every.child (h : Every P site n) {site' : Site} {n' : Node} (hc : (site', n') ∈ n.children site) :
    Every P site' n' :=
  (every_iff.mp h).2 (site', n') hc

theorem Every.imp (h : Every P site n) (hi : ∀ site n, P site n → Q site n) : Every Q site n :=
  fun site' n' ho => hi site' n' (h site' n' ho)

theorem Every.part (h : Every P site n) {site' : Site} {n' : Node} (ho : Occurs site n site' n') :
    Every P site' n' :=
  fun site'' n'' ho' => h site'' n'' (ho.trans ho')

end Every

/-! ### Calls that are replaced -/

section MapCalls

variable {g : Call → Except Diagnostic Call}

theorem Expr.mapCallsList_eq (es : List Expr) :
    Expr.mapCallsList g es = es.mapM (Expr.mapCalls g) := by
  induction es with
  | nil => rfl
  | cons e es ih => simp only [Expr.mapCallsList, List.mapM_cons, ih]

theorem Entry.mapCallsList_eq (es : List Entry) :
    Entry.mapCallsList g es = es.mapM (Entry.mapCalls g) := by
  induction es with
  | nil => rfl
  | cons e es ih => simp only [Entry.mapCallsList, List.mapM_cons, ih]

theorem Stmt.mapCallsList_eq (ss : List Stmt) :
    Stmt.mapCallsList g ss = ss.mapM (Stmt.mapCalls g) := by
  induction ss with
  | nil => rfl
  | cons s ss ih => simp only [Stmt.mapCallsList, List.mapM_cons, ih]

theorem Expr.mapCallsOption_eq (e : Option Expr) :
    Expr.mapCallsOption g e = e.mapM (Expr.mapCalls g) := by
  cases e <;> simp only [Expr.mapCallsOption, Option.mapM_none, Option.mapM_some, map_eq_pure_bind]

theorem Block.mapCallsOption_eq (b : Option Block) :
    Block.mapCallsOption g b = b.mapM (Block.mapCalls g) := by
  cases b <;> simp only [Block.mapCallsOption, Option.mapM_none, Option.mapM_some, map_eq_pure_bind]

theorem Stmt.mapCallsOption_eq (s : Option Stmt) :
    Stmt.mapCallsOption g s = s.mapM (Stmt.mapCalls g) := by
  cases s <;> simp only [Stmt.mapCallsOption, Option.mapM_none, Option.mapM_some, map_eq_pure_bind]

/-- The arguments of a call are replaced before the call is. -/
theorem Call.exists_args_of_mapCalls {c c' : Call} (h : c.mapCalls g = .ok c') :
    ∃ args, List.Forall₂ (fun e e' => e.mapCalls g = .ok e') c.args args ∧ g { c with args } = .ok c' := by
  cases c
  simp only [Call.mapCalls, Expr.mapCallsList_eq, bind_eq_ok, mapM_eq_ok] at h
  exact h

/-- A replacement that only gives targets to calls that have none. -/
def Retargets (g : Call → Except Diagnostic Call) : Prop :=
  ∀ c c', g c = .ok c' → ∃ target, c' = { c with target } ∧ (c.target ≠ .deferred → target = c.target)

theorem Call.mapCalls_eq_ok (hg : Retargets g) {c c' : Call} (h : c.mapCalls g = .ok c') :
    ∃ args target, c' = { c with args, target } ∧
      List.Forall₂ (fun e e' => e.mapCalls g = .ok e') c.args args ∧
      (c.target ≠ .deferred → target = c.target) := by
  obtain ⟨args, hargs, h⟩ := exists_args_of_mapCalls h
  obtain ⟨target, rfl, ht⟩ := hg _ _ h
  exact ⟨args, target, rfl, hargs, ht⟩

theorem Routine.mapCalls_eq_ok {f f' : Routine} (h : f.mapCalls g = .ok f') :
    ∃ body, f' = { f with body } ∧
      List.Forall₂ (fun b b' => b.mapCalls g = .ok b') f.body.toList body.toList := by
  cases f
  simp only [Routine.mapCalls, Block.mapCallsOption_eq, bind_eq_ok, pure_eq_ok] at h
  obtain ⟨body, hbody, rfl⟩ := h
  exact ⟨body, rfl, option_mapM_eq_ok hbody⟩

theorem Entry.mapCalls_eq_ok {e e' : Entry} (h : e.mapCalls g = .ok e') :
    ∃ value, e' = { e with value } ∧ e.value.mapCalls g = .ok value := by
  cases e
  simp only [Entry.mapCalls, bind_eq_ok, pure_eq_ok] at h
  obtain ⟨value, hvalue, rfl⟩ := h
  exact ⟨value, rfl, hvalue⟩

theorem Block.mapCalls_eq_ok {b b' : Block} (h : b.mapCalls g = .ok b') :
    ∃ stmts, b' = { b with stmts } ∧
      List.Forall₂ (fun s s' => s.mapCalls g = .ok s') b.stmts stmts := by
  cases b
  simp only [Block.mapCalls, Stmt.mapCallsList_eq, bind_eq_ok, pure_eq_ok, mapM_eq_ok] at h
  obtain ⟨stmts, hstmts, rfl⟩ := h
  exact ⟨stmts, rfl, hstmts⟩

theorem VarDecl.mapCalls_eq_ok {d d' : VarDecl} (h : d.mapCalls g = .ok d') :
    ∃ value, d' = { d with value } ∧
      List.Forall₂ (fun e e' => e.mapCalls g = .ok e') d.value.toList value.toList := by
  cases d
  simp only [VarDecl.mapCalls, Expr.mapCallsOption_eq, bind_eq_ok, pure_eq_ok] at h
  obtain ⟨value, hvalue, rfl⟩ := h
  exact ⟨value, rfl, option_mapM_eq_ok hvalue⟩

/-- What an expression becomes when its calls are replaced: it keeps its form, and so do its parts. -/
inductive Expr.Becomes (g : Call → Except Diagnostic Call) : Expr → Expr → Prop where
  | literal (value : Literal) (span : Span) : Becomes g (.literal value span) (.literal value span)
  | identifier (id : Identifier) : Becomes g (.identifier id) (.identifier id)
  | variadic (span : Span) : Becomes g (.variadic span) (.variadic span)
  | member (base : Identifier) (members : List Member) (span : Span) :
      Becomes g (.member base members span) (.member base members span)
  | index {a a' i i' : Expr} {span : Span} (array : a.mapCalls g = .ok a') (index : i.mapCalls g = .ok i') :
      Becomes g (.index a i span) (.index a' i' span)
  | call {c c' : Call} (call : c.mapCalls g = .ok c') : Becomes g (.call c) (.call c')
  | binary {op : BinaryOp} {l l' r r' : Expr} {span : Span} (lhs : l.mapCalls g = .ok l')
      (rhs : r.mapCalls g = .ok r') : Becomes g (.binary op l r span) (.binary op l' r' span)
  | unary {op : UnaryOp} {e e' : Expr} {span : Span} (operand : e.mapCalls g = .ok e') :
      Becomes g (.unary op e span) (.unary op e' span)
  | assign {op : AssignOp} {t t' v v' : Expr} {span : Span} (target : t.mapCalls g = .ok t')
      (value : v.mapCalls g = .ok v') : Becomes g (.assign op t v span) (.assign op t' v' span)
  | construct {name internal : String} {es es' : List Entry} {span : Span}
      (entries : List.Forall₂ (fun e e' => e.mapCalls g = .ok e') es es') :
      Becomes g (.construct name internal es span) (.construct name internal es' span)
  | array {es es' : List Expr} {span : Span}
      (elements : List.Forall₂ (fun e e' => e.mapCalls g = .ok e') es es') :
      Becomes g (.array es span) (.array es' span)
  | lambda {f f' : Routine} (routine : f.mapCalls g = .ok f') : Becomes g (.lambda f) (.lambda f')

theorem Expr.becomes {e e' : Expr} (h : e.mapCalls g = .ok e') : e.Becomes g e' := by
  cases e <;> simp only [Expr.mapCalls, Expr.mapCallsList_eq, Entry.mapCallsList_eq, bind_eq_ok, pure_eq_ok,
    mapM_eq_ok] at h
  case literal | identifier | variadic | member =>
    subst h
    constructor
  case index | binary | assign =>
    obtain ⟨a, ha, b, hb, rfl⟩ := h
    constructor <;> assumption
  case call | unary | construct | array | lambda =>
    obtain ⟨a, ha, rfl⟩ := h
    constructor
    exact ha

/-- What a statement becomes when its calls are replaced. -/
inductive Stmt.Becomes (g : Call → Except Diagnostic Call) : Stmt → Stmt → Prop where
  | package (name : String) (span : Span) : Becomes g (.package name span) (.package name span)
  | imports (path items : List String) (span : Span) : Becomes g (.imports path items span) (.imports path items span)
  | module {path : List String} {b b' : Block} {span : Span} (body : b.mapCalls g = .ok b') :
      Becomes g (.module path b span) (.module path b' span)
  | function {f f' : Routine} (routine : f.mapCalls g = .ok f') : Becomes g (.function f) (.function f')
  | struct (decl : StructDecl) : Becomes g (.struct decl) (.struct decl)
  | enum {name internal : String} {es es' : List Entry} {scope : ScopeId} {span : Span}
      (members : List.Forall₂ (fun e e' => e.mapCalls g = .ok e') es es') :
      Becomes g (.enum name internal es scope span) (.enum name internal es' scope span)
  | variable {d d' : VarDecl} (decl : d.mapCalls g = .ok d') : Becomes g (.variable d) (.variable d')
  | cond {c c' : Expr} {b b' : Block} {o o' : Option Block} {span : Span} (condition : c.mapCalls g = .ok c')
      (yes : b.mapCalls g = .ok b') (no : List.Forall₂ (fun b b' => b.mapCalls g = .ok b') o.toList o'.toList) :
      Becomes g (.cond c b o span) (.cond c' b' o' span)
  | while {c c' : Expr} {b b' : Block} {span : Span} (condition : c.mapCalls g = .ok c')
      (body : b.mapCalls g = .ok b') : Becomes g (.while c b span) (.while c' b' span)
  | for {i i' : Option Stmt} {c c' n n' : Option Expr} {b b' : Block} {scope : ScopeId} {span : Span}
      (init : List.Forall₂ (fun s s' => s.mapCalls g = .ok s') i.toList i'.toList)
      (condition : List.Forall₂ (fun e e' => e.mapCalls g = .ok e') c.toList c'.toList)
      (step : List.Forall₂ (fun e e' => e.mapCalls g = .ok e') n.toList n'.toList) (body : b.mapCalls g = .ok b') :
      Becomes g (.for i c n b scope span) (.for i' c' n' b' scope span)
  | return {v v' : Option Expr} {span : Span}
      (value : List.Forall₂ (fun e e' => e.mapCalls g = .ok e') v.toList v'.toList) :
      Becomes g (.return v span) (.return v' span)
  | break (span : Span) : Becomes g (.break span) (.break span)
  | continue (span : Span) : Becomes g (.continue span) (.continue span)
  | block {b b' : Block} (block : b.mapCalls g = .ok b') : Becomes g (.block b) (.block b')
  | expr {e e' : Expr} (value : e.mapCalls g = .ok e') : Becomes g (.expr e) (.expr e')

theorem Stmt.becomes {s s' : Stmt} (h : s.mapCalls g = .ok s') : s.Becomes g s' := by
  cases s <;> simp only [Stmt.mapCalls, Stmt.mapCallsOption_eq, Expr.mapCallsOption_eq, Block.mapCallsOption_eq,
    Entry.mapCallsList_eq, bind_eq_ok, pure_eq_ok, mapM_eq_ok] at h
  case package | imports | struct | «break» | «continue» =>
    subst h
    constructor
  case module | function | enum | «variable» | block | expr =>
    obtain ⟨a, ha, rfl⟩ := h
    constructor
    exact ha
  case «while» =>
    obtain ⟨condition, hcondition, body, hbody, rfl⟩ := h
    exact .while hcondition hbody
  case cond =>
    obtain ⟨condition, hcondition, yes, hyes, no, hno, rfl⟩ := h
    exact .cond hcondition hyes (option_mapM_eq_ok hno)
  case «for» =>
    obtain ⟨init, hinit, condition, hcondition, step, hstep, body, hbody, rfl⟩ := h
    exact .for (option_mapM_eq_ok hinit) (option_mapM_eq_ok hcondition) (option_mapM_eq_ok hstep) hbody
  case «return» =>
    obtain ⟨value, hvalue, rfl⟩ := h
    exact .return (option_mapM_eq_ok hvalue)

namespace Node

def mapCalls (g : Call → Except Diagnostic Call) : Node → Except Diagnostic Node
  | block b => block <$> b.mapCalls g
  | stmt s => stmt <$> s.mapCalls g
  | expr e => expr <$> e.mapCalls g

/-- One stands where the other stood and has come from it. -/
def Replaces (g : Call → Except Diagnostic Call) (part part' : Site × Node) : Prop :=
  part'.1 = part.1 ∧ part.2.mapCalls g = .ok part'.2

theorem replaces_expr {site : Site} {e e' : Expr} (h : e.mapCalls g = .ok e') :
    Replaces g (site, expr e) (site, expr e') :=
  ⟨rfl, map_eq_ok.mpr ⟨e', h, rfl⟩⟩

theorem replaces_stmt {site : Site} {s s' : Stmt} (h : s.mapCalls g = .ok s') :
    Replaces g (site, stmt s) (site, stmt s') :=
  ⟨rfl, map_eq_ok.mpr ⟨s', h, rfl⟩⟩

theorem replaces_block {site : Site} {b b' : Block} (h : b.mapCalls g = .ok b') :
    Replaces g (site, block b) (site, block b') :=
  ⟨rfl, map_eq_ok.mpr ⟨b', h, rfl⟩⟩

theorem replaces_map {α : Type} {R : α → α → Prop} {as bs : List α} {f : α → Site × Node}
    (h : List.Forall₂ R as bs) (hf : ∀ a b, R a b → Replaces g (f a) (f b)) :
    List.Forall₂ (Replaces g) (as.map f) (bs.map f) := by
  rw [List.forall₂_map_left_iff, List.forall₂_map_right_iff]
  exact h.imp hf

theorem replaces_ofBody {site : Site} {f f' : Routine} (h : f.mapCalls g = .ok f') :
    List.Forall₂ (Replaces g) (ofBody site f) (ofBody site f') := by
  obtain ⟨body, rfl, hbody⟩ := Routine.mapCalls_eq_ok h
  exact replaces_map hbody fun _ _ => replaces_block

theorem replaces_entries {site : Site} {es es' : List Entry}
    (h : List.Forall₂ (fun e e' => e.mapCalls g = .ok e') es es') :
    List.Forall₂ (Replaces g) (es.map fun e => (site, expr e.value))
      (es'.map fun e => (site, expr e.value)) := by
  refine replaces_map h fun e e' he => ?_
  obtain ⟨value, rfl, hvalue⟩ := Entry.mapCalls_eq_ok he
  exact replaces_expr hvalue

theorem stmt_of_mapCalls {n : Node} {s' : Stmt} (h : n.mapCalls g = .ok (stmt s')) :
    ∃ s, n = stmt s ∧ s.mapCalls g = .ok s' := by
  cases n <;> obtain ⟨s, hs, heq⟩ := map_eq_ok.mp h <;> cases heq
  exact ⟨_, rfl, hs⟩

theorem expr_of_mapCalls {n : Node} {e' : Expr} (h : n.mapCalls g = .ok (expr e')) :
    ∃ e, n = expr e ∧ e.mapCalls g = .ok e' := by
  cases n <;> obtain ⟨e, he, heq⟩ := map_eq_ok.mp h <;> cases heq
  exact ⟨_, rfl, he⟩

/-- What is replaced keeps its parts where they are, and each is replaced in the same way. -/
theorem replaces_children (hg : Retargets g) {site : Site} {n n' : Node} (h : n.mapCalls g = .ok n') :
    List.Forall₂ (Replaces g) (n.children site) (n'.children site) := by
  cases n with
  | block b =>
      obtain ⟨b', hb, rfl⟩ := map_eq_ok.mp h
      obtain ⟨stmts, rfl, hstmts⟩ := Block.mapCalls_eq_ok hb
      exact replaces_map hstmts fun _ _ => replaces_stmt
  | stmt s =>
      obtain ⟨s', hs, rfl⟩ := map_eq_ok.mp h
      cases Stmt.becomes hs with
      | package | imports | struct | «break» | «continue» => exact .nil
      | module body => exact .cons (replaces_block body) .nil
      | function routine => exact replaces_ofBody routine
      | enum members => exact replaces_entries members
      | «variable» decl =>
          obtain ⟨value, rfl, hvalue⟩ := VarDecl.mapCalls_eq_ok decl
          exact replaces_map hvalue fun _ _ => replaces_expr
      | cond condition yes no =>
          exact .cons (replaces_expr condition) (.cons (replaces_block yes)
            (replaces_map no fun _ _ => replaces_block))
      | «while» condition body => exact .cons (replaces_expr condition) (.cons (replaces_block body) .nil)
      | «for» init condition step body =>
          refine List.rel_append (List.rel_append (List.rel_append ?_ ?_) ?_) ?_
          · exact replaces_map init fun _ _ => replaces_stmt
          · exact replaces_map condition fun _ _ => replaces_expr
          · exact replaces_map step fun _ _ => replaces_expr
          · exact .cons (replaces_block body) .nil
      | «return» value => exact replaces_map value fun _ _ => replaces_expr
      | block b => exact .cons (replaces_block b) .nil
      | expr e => exact .cons (replaces_expr e) .nil
  | expr e =>
      obtain ⟨e', he, rfl⟩ := map_eq_ok.mp h
      cases Expr.becomes he with
      | literal | identifier | «variadic» | member => exact .nil
      | index a b | binary a b | assign a b => exact .cons (replaces_expr a) (.cons (replaces_expr b) .nil)
      | call c =>
          obtain ⟨args, target, rfl, hargs, _⟩ := Call.mapCalls_eq_ok hg c
          exact replaces_map hargs fun _ _ => replaces_expr
      | unary operand => exact .cons (replaces_expr operand) .nil
      | construct entries => exact replaces_entries entries
      | array elements => exact replaces_map elements fun _ _ => replaces_expr
      | lambda routine => exact replaces_ofBody routine

theorem call_of_mapCalls {n : Node} {c' : Call} (h : n.mapCalls g = .ok (expr (.call c'))) :
    ∃ c, n = expr (.call c) ∧ c.mapCalls g = .ok c' := by
  obtain ⟨e, rfl, he⟩ := expr_of_mapCalls h
  cases Expr.becomes he with
  | call hc => exact ⟨_, rfl, hc⟩

theorem literal_of_mapCalls {n : Node} {value : Literal} {span : Span}
    (h : n.mapCalls g = .ok (expr (.literal value span))) : n = expr (.literal value span) := by
  obtain ⟨e, rfl, he⟩ := expr_of_mapCalls h
  cases Expr.becomes he with
  | literal => rfl

theorem variable_of_mapCalls {n : Node} {d' : VarDecl} (h : n.mapCalls g = .ok (stmt (.variable d'))) :
    ∃ d, n = stmt (.variable d) ∧ d.mapCalls g = .ok d' := by
  obtain ⟨s, rfl, hs⟩ := stmt_of_mapCalls h
  cases Stmt.becomes hs with
  | «variable» hd => exact ⟨_, rfl, hd⟩

end Node

/-- A part of a tree whose calls have been replaced comes from a part that stood in the same place. -/
theorem Occurs.of_mapCalls (hg : Retargets g) {site site' : Site} {n n' part' : Node}
    (h : n.mapCalls g = .ok n') (ho : Occurs site n' site' part') :
    ∃ part, Occurs site n site' part ∧ part.mapCalls g = .ok part' := by
  induction ho generalizing n with
  | here => exact ⟨n, .here, h⟩
  | under member inside ih =>
      obtain ⟨child, hchild, hsite, hc⟩ := exists_mem_of_forall₂ (Node.replaces_children hg h) member
      obtain ⟨part, hpart, hp⟩ := ih hc
      exact ⟨part, .under hchild (hsite ▸ hpart), hp⟩

end MapCalls

end OnePass
