import OnePass.Proofs.Token.Extent
import OnePass.Proofs.Tree.Occurrence

/-!
All that has a place in the text. Beside blocks, statements and expressions these are the parameters of
functions, the fields of structs, the values of members and fields with their names, and the names in a chain
of members. `Part.parts` lists what is directly below a part as it stands in the text.

A part is laid out if its span lies within the text and around its parts, and these follow one another. It
nests as deep as the longest chain of parts below it, where blocks, functions without a name and operators
in front of their operands count. Neither has to do with where calls go.
-/

namespace OnePass

/-- The spans lie between two places, one behind the other. -/
structure Span.InOrder (lo hi : Nat) (ss : List Span) : Prop where
  bounds : ∀ s ∈ ss, lo ≤ s.start ∧ s.stop ≤ hi
  ordered : ss.Pairwise (·.stop ≤ ·.start)

namespace Span.InOrder

variable {lo hi lo' hi' : Nat} {ss ss' : List Span}

theorem nil : InOrder lo hi [] := ⟨nofun, .nil⟩

theorem mono (h : InOrder lo hi ss) (hlo : lo' ≤ lo) (hhi : hi ≤ hi') : InOrder lo' hi' ss :=
  ⟨fun s hs => ⟨Nat.le_trans hlo (h.bounds s hs).1, Nat.le_trans (h.bounds s hs).2 hhi⟩, h.ordered⟩

theorem append (h : InOrder lo hi ss) (h' : InOrder lo' hi' ss') (hmid : hi ≤ lo') (hlo : lo ≤ lo')
    (hhi : hi ≤ hi') : InOrder lo hi' (ss ++ ss') where
  bounds := List.forall_mem_append.mpr
    ⟨(h.mono (Nat.le_refl _) hhi).bounds, (h'.mono hlo (Nat.le_refl _)).bounds⟩
  ordered := List.pairwise_append.mpr ⟨h.ordered, h'.ordered, fun s hs s' hs' =>
    Nat.le_trans (h.bounds s hs).2 (Nat.le_trans hmid (h'.bounds s' hs').1)⟩

end Span.InOrder

inductive Part where
  | block (b : Block)
  | stmt (s : Stmt)
  | expr (e : Expr)
  | entry (e : Entry)
  | param (p : Param)
  | field (f : StructField)
  | name (id : Identifier)
  | member (m : Member)

def Routine.parts (f : Routine) : List Part := f.params.map .param ++ f.body.toList.map .block

def StructBody.parts : StructBody → List Part
  | .fields fs => fs.map .field
  | .alias _ => []

theorem StructBody.eq_field_of_mem {b : StructBody} {p : Part} (h : p ∈ b.parts) : ∃ f, p = .field f := by
  unfold parts at h
  split at h
  · obtain ⟨f, _, rfl⟩ := List.mem_map.mp h
    exact ⟨f, rfl⟩
  · cases h

/-- Does the operator stand in front of its operand? -/
def UnaryOp.leads : UnaryOp → Bool
  | .postIncrement | .postDecrement => false
  | _ => true

namespace Part

def span : Part → Span
  | block b => b.span
  | stmt s => s.span
  | expr e => e.span
  | entry e => e.span
  | param p => p.span
  | field f => f.span
  | name id => id.span
  | member m => m.span

/-- The parts directly below one, in the order of the text. -/
def parts : Part → List Part
  | block b => b.stmts.map stmt
  | stmt (.package ..) | stmt (.imports ..) | stmt (.break _) | stmt (.continue _) => []
  | stmt (.module _ body _) => [block body]
  | stmt (.function f) => f.parts
  | stmt (.struct d) => d.body.parts
  | stmt (.enum _ _ members _ _) => members.map entry
  | stmt (.variable d) => d.value.toList.map expr
  | stmt (.cond condition yes no _) => [expr condition, block yes] ++ no.toList.map block
  | stmt (.while condition body _) => [expr condition, block body]
  | stmt (.for init condition step body _ _) =>
    init.toList.map stmt ++ condition.toList.map expr ++ step.toList.map expr ++ [block body]
  | stmt (.return value _) => value.toList.map expr
  | stmt (.block b) => [block b]
  | stmt (.expr e) => [expr e]
  | expr (.literal ..) | expr (.identifier _) | expr (.variadic _) => []
  | expr (.member base members _) => name base :: members.map member
  | expr (.index array index _) => [expr array, expr index]
  | expr (.call c) => c.args.map expr
  | expr (.binary _ lhs rhs _) => [expr lhs, expr rhs]
  | expr (.unary _ operand _) => [expr operand]
  | expr (.assign _ target value _) => [expr target, expr value]
  | expr (.construct _ _ fields _) => fields.map entry
  | expr (.array elements _) => elements.map expr
  | expr (.lambda f) => f.parts
  | entry e => [expr e.value]
  | param _ | field _ | name _ | member _ => []

/-- What a part adds to the depth of those below it. -/
def weight : Part → Nat
  | block _ | expr (.lambda _) => 1
  | expr (.unary op _ _) => op.leads.toNat
  | _ => 0

/-! ### Layout -/

/-- The part and all parts below it lie within the text, each around its own parts, and these are in
order. -/
inductive Laid (source : Source) : Part → Prop where
  | mk {p : Part} (within : p.span.Within source)
      (inOrder : Span.InOrder p.span.start p.span.stop (p.parts.map span))
      (below : ∀ q ∈ p.parts, Laid source q) : Laid source p

/-! ### Depth -/

/-- There is a chain of parts from `p` down in which so much is nested. -/
inductive Nests : Part → Nat → Prop where
  | here (p : Part) : Nests p p.weight
  | under {p q : Part} {k : Nat} (member : q ∈ p.parts) (inside : Nests q k) : Nests p (p.weight + k)

/-- No more than so much is nested. -/
def Shallow (n : Nat) (p : Part) : Prop := ∀ k, Nests p k → k ≤ n

theorem Shallow.mono {m n : Nat} {p : Part} (h : p.Shallow m) (hle : m ≤ n) : p.Shallow n :=
  fun k hk => Nat.le_trans (h k hk) hle

theorem Shallow.of_parts {n : Nat} {p : Part} (hw : p.weight ≤ n) (h : ∀ q ∈ p.parts, q.Shallow (n - p.weight)) :
    p.Shallow n := by
  intro k hk
  cases hk with
  | here => exact hw
  | under member inside =>
      have := h _ member _ inside
      omega

/-! ### Calls that are replaced -/

variable {g : Call → Except Diagnostic Call}

def mapCalls (g : Call → Except Diagnostic Call) : Part → Except Diagnostic Part
  | block b => block <$> b.mapCalls g
  | stmt s => stmt <$> s.mapCalls g
  | expr e => expr <$> e.mapCalls g
  | entry e => entry <$> e.mapCalls g
  | param p => pure (param p)
  | field f => pure (field f)
  | name id => pure (name id)
  | member m => pure (member m)

/-- The one has come from the other. -/
def Replaces (g : Call → Except Diagnostic Call) (p p' : Part) : Prop := p.mapCalls g = .ok p'

/-- The same as before but for the parts, which have come from the parts before. -/
structure Keeps (g : Call → Except Diagnostic Call) (p p' : Part) : Prop where
  span : p'.span = p.span
  weight : p'.weight = p.weight
  parts : List.Forall₂ (Replaces g) p.parts p'.parts

theorem replaces_map {α : Type} {R : α → α → Prop} {as bs : List α} {f : α → Part}
    (h : List.Forall₂ R as bs) (hf : ∀ a b, R a b → Replaces g (f a) (f b)) :
    List.Forall₂ (Replaces g) (as.map f) (bs.map f) := by
  rw [List.forall₂_map_left_iff, List.forall₂_map_right_iff]
  exact h.imp hf

theorem replaces_refl {ps : List Part} (h : ∀ p ∈ ps, Replaces g p p) : List.Forall₂ (Replaces g) ps ps :=
  List.forall₂_same.mpr h

theorem replaces_block {b b' : Block} (h : b.mapCalls g = .ok b') : Replaces g (block b) (block b') :=
  map_eq_ok.mpr ⟨b', h, rfl⟩

theorem replaces_stmt {s s' : Stmt} (h : s.mapCalls g = .ok s') : Replaces g (stmt s) (stmt s') :=
  map_eq_ok.mpr ⟨s', h, rfl⟩

theorem replaces_expr {e e' : Expr} (h : e.mapCalls g = .ok e') : Replaces g (expr e) (expr e') :=
  map_eq_ok.mpr ⟨e', h, rfl⟩

theorem replaces_entries {es es' : List Entry} (h : List.Forall₂ (fun e e' => e.mapCalls g = .ok e') es es') :
    List.Forall₂ (Replaces g) (es.map entry) (es'.map entry) :=
  replaces_map h fun _ e' he => map_eq_ok.mpr ⟨e', he, rfl⟩

theorem replaces_routine {f f' : Routine} (h : f.mapCalls g = .ok f') :
    f'.span = f.span ∧ List.Forall₂ (Replaces g) f.parts f'.parts := by
  obtain ⟨body, rfl, hbody⟩ := Routine.mapCalls_eq_ok h
  refine ⟨rfl, List.rel_append (replaces_refl ?_) (replaces_map hbody fun _ _ => replaces_block)⟩
  rintro _ hp
  obtain ⟨p, _, rfl⟩ := List.mem_map.mp hp
  rfl

theorem keeps_expr (hg : Retargets g) {e e' : Expr} (h : e.mapCalls g = .ok e') :
    Keeps g (expr e) (expr e') := by
  cases Expr.becomes h with
  | literal | identifier | «variadic» => exact ⟨rfl, rfl, .nil⟩
  | member =>
      refine ⟨rfl, rfl, .cons rfl (replaces_refl fun p hp => ?_)⟩
      obtain ⟨m, _, rfl⟩ := List.mem_map.mp hp
      rfl
  | index a b | binary a b | assign a b =>
      exact ⟨rfl, rfl, .cons (replaces_expr a) (.cons (replaces_expr b) .nil)⟩
  | call c =>
      obtain ⟨args, target, rfl, hargs, _⟩ := Call.mapCalls_eq_ok hg c
      exact ⟨rfl, rfl, replaces_map hargs fun _ _ => replaces_expr⟩
  | unary operand => exact ⟨rfl, rfl, .cons (replaces_expr operand) .nil⟩
  | construct entries => exact ⟨rfl, rfl, replaces_entries entries⟩
  | array elements => exact ⟨rfl, rfl, replaces_map elements fun _ _ => replaces_expr⟩
  | lambda routine => exact ⟨(replaces_routine routine).1, rfl, (replaces_routine routine).2⟩

theorem keeps_stmt (hg : Retargets g) {s s' : Stmt} (h : s.mapCalls g = .ok s') : Keeps g (stmt s) (stmt s') := by
  cases Stmt.becomes h with
  | package | imports | «break» | «continue» => exact ⟨rfl, rfl, .nil⟩
  | struct d =>
      refine ⟨rfl, rfl, replaces_refl fun p hp => ?_⟩
      obtain ⟨f, rfl⟩ := StructBody.eq_field_of_mem hp
      rfl
  | module body => exact ⟨rfl, rfl, .cons (replaces_block body) .nil⟩
  | function routine => exact ⟨(replaces_routine routine).1, rfl, (replaces_routine routine).2⟩
  | enum members => exact ⟨rfl, rfl, replaces_entries members⟩
  | «variable» decl =>
      obtain ⟨value, rfl, hvalue⟩ := VarDecl.mapCalls_eq_ok decl
      exact ⟨rfl, rfl, replaces_map hvalue fun _ _ => replaces_expr⟩
  | cond condition yes no =>
      exact ⟨rfl, rfl, .cons (replaces_expr condition) (.cons (replaces_block yes)
        (replaces_map no fun _ _ => replaces_block))⟩
  | «while» condition body => exact ⟨rfl, rfl, .cons (replaces_expr condition) (.cons (replaces_block body) .nil)⟩
  | «for» init condition step body =>
      refine ⟨rfl, rfl, List.rel_append (List.rel_append (List.rel_append ?_ ?_) ?_) ?_⟩
      · exact replaces_map init fun _ _ => replaces_stmt
      · exact replaces_map condition fun _ _ => replaces_expr
      · exact replaces_map step fun _ _ => replaces_expr
      · exact .cons (replaces_block body) .nil
  | «return» value => exact ⟨rfl, rfl, replaces_map value fun _ _ => replaces_expr⟩
  | block b =>
      obtain ⟨stmts, rfl, _⟩ := Block.mapCalls_eq_ok b
      exact ⟨rfl, rfl, .cons (replaces_block b) .nil⟩
  | expr e => exact ⟨(keeps_expr hg e).span, rfl, .cons (replaces_expr e) .nil⟩

/-- What is replaced stays where it is, and so does all below it. -/
theorem keeps_of_replaces (hg : Retargets g) {p p' : Part} (h : Replaces g p p') : Keeps g p p' := by
  cases p with
  | block b =>
      obtain ⟨b', hb, rfl⟩ := map_eq_ok.mp h
      obtain ⟨stmts, rfl, hstmts⟩ := Block.mapCalls_eq_ok hb
      exact ⟨rfl, rfl, replaces_map hstmts fun _ _ => replaces_stmt⟩
  | stmt s =>
      obtain ⟨s', hs, rfl⟩ := map_eq_ok.mp h
      exact keeps_stmt hg hs
  | expr e =>
      obtain ⟨e', he, rfl⟩ := map_eq_ok.mp h
      exact keeps_expr hg he
  | entry e =>
      obtain ⟨e', he, rfl⟩ := map_eq_ok.mp h
      obtain ⟨value, rfl, hvalue⟩ := Entry.mapCalls_eq_ok he
      exact ⟨rfl, rfl, .cons (replaces_expr hvalue) .nil⟩
  | param | field | name | member =>
      obtain rfl := pure_eq_ok.mp h
      exact ⟨rfl, rfl, .nil⟩

theorem Laid.of_replaces (hg : Retargets g) {source : Source} {p p' : Part} (hp : p.Laid source)
    (h : Replaces g p p') : p'.Laid source := by
  induction hp generalizing p' with
  | @mk p within inOrder _ ih =>
      obtain ⟨hspan, _, hparts⟩ := keeps_of_replaces hg h
      have spans : p.parts.map span = p'.parts.map span := by
        rw [← List.forall₂_eq_eq_eq, List.forall₂_map_left_iff, List.forall₂_map_right_iff]
        exact hparts.imp fun q q' hq => (keeps_of_replaces hg hq).span.symm
      refine ⟨hspan ▸ within, hspan ▸ spans ▸ inOrder, fun q' hq' => ?_⟩
      obtain ⟨q, hq, hreplaces⟩ := exists_mem_of_forall₂ hparts hq'
      exact ih q hq hreplaces

theorem Nests.of_replaces (hg : Retargets g) {p p' : Part} {k : Nat} (hn : p'.Nests k)
    (h : Replaces g p p') : p.Nests k := by
  induction hn generalizing p with
  | here => exact (keeps_of_replaces hg h).weight ▸ .here p
  | under member inside ih =>
      obtain ⟨_, hweight, hparts⟩ := keeps_of_replaces hg h
      obtain ⟨q, hq, hreplaces⟩ := exists_mem_of_forall₂ hparts member
      exact hweight ▸ .under hq (ih hreplaces)

end Part
end OnePass
