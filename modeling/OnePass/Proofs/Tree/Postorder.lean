import OnePass.Proofs.Tree.Parts

/-!
Trees from below. The postorder of a part has each part of the tree once, what is below a part in front of it
and all else as it is written; the calls of a tree are those of its postorder. If the tree is laid out and each
call ends behind its arguments, they end one after the other. What is known of the spans of all parts is known of
those of the calls.
-/

namespace OnePass

/-! ### What is below is smaller -/

theorem Block.sizeOf_stmts (b : Block) : sizeOf b.stmts < sizeOf b := by
  cases b
  simp +arith

theorem Call.sizeOf_args (c : Call) : sizeOf c.args < sizeOf c := by
  cases c
  simp +arith

theorem Entry.sizeOf_value (e : Entry) : sizeOf e.value < sizeOf e := by
  cases e
  simp +arith

theorem VarDecl.sizeOf_value (d : VarDecl) : sizeOf d.value < sizeOf d := by
  cases d
  simp +arith

theorem Routine.sizeOf_parts (f : Routine) : sizeOf f.params < sizeOf f ∧ sizeOf f.body < sizeOf f := by
  cases f
  constructor <;> simp +arith

theorem StructDecl.sizeOf_lt {d : StructDecl} {q : Part} (h : q ∈ d.body.parts) : sizeOf q < sizeOf d := by
  obtain ⟨name, internal, body, visibility, span⟩ := d
  cases body <;> grind [→ List.sizeOf_lt_of_mem, StructBody.parts]

theorem Part.sizeOf_lt {p q : Part} (h : q ∈ p.parts) : sizeOf q < sizeOf p := by
  unfold parts at h
  split at h <;> grind [→ List.sizeOf_lt_of_mem, Routine.parts, Block.sizeOf_stmts, Call.sizeOf_args,
    Entry.sizeOf_value, VarDecl.sizeOf_value, Routine.sizeOf_parts, → StructDecl.sizeOf_lt]

/-! ### Calls -/

/-- The call takes up some of the text, and it ends behind its arguments. -/
structure Call.Closes (c : Call) : Prop where
  nonempty : c.span.start < c.span.stop
  behind : ∀ e ∈ c.args, e.span.stop < c.span.stop

/-- The calls lie between two places, and each ends behind the one before it. -/
structure Call.InOrder (lo hi : Nat) (cs : List Call) : Prop where
  bounds : ∀ c ∈ cs, lo ≤ c.span.start ∧ c.span.start < c.span.stop ∧ c.span.stop ≤ hi
  ordered : cs.Pairwise (·.span.stop < ·.span.stop)

theorem Expr.callsList_eq (es : List Expr) : Expr.callsList es = es.flatMap Expr.calls := by
  induction es with
  | nil => rfl
  | cons e es ih => rw [Expr.callsList, ih, List.flatMap_cons]

theorem Entry.callsList_eq (es : List Entry) : Entry.callsList es = es.flatMap Entry.calls := by
  induction es with
  | nil => rfl
  | cons e es ih => rw [Entry.callsList, ih, List.flatMap_cons]

theorem Stmt.callsList_eq (ss : List Stmt) : Stmt.callsList ss = ss.flatMap Stmt.calls := by
  induction ss with
  | nil => rfl
  | cons s ss ih => rw [Stmt.callsList, ih, List.flatMap_cons]

theorem Expr.callsOption_eq (e : Option Expr) : Expr.callsOption e = e.toList.flatMap Expr.calls := by
  cases e <;> simp [Expr.callsOption]

theorem Block.callsOption_eq (b : Option Block) : Block.callsOption b = b.toList.flatMap Block.calls := by
  cases b <;> simp [Block.callsOption]

theorem Stmt.callsOption_eq (s : Option Stmt) : Stmt.callsOption s = s.toList.flatMap Stmt.calls := by
  cases s <;> simp [Stmt.callsOption]

namespace Part

/-- The part and all parts below it, each once. Those below a part come before it. -/
def postorder (p : Part) : List Part := (p.parts.attach.map fun q => q.1.postorder).flatten ++ [p]
termination_by sizeOf p
decreasing_by exact sizeOf_lt q.2

theorem postorder_eq (p : Part) : p.postorder = p.parts.flatMap postorder ++ [p] := by
  rw [postorder, List.attach_map_val, List.flatMap_def]

def call? : Part → Option Call
  | expr (.call c) => some c
  | _ => none

theorem eq_of_call? {p : Part} {c : Call} (h : p.call? = some c) : p = expr (.call c) := by
  unfold call? at h
  split at h
  · rw [Option.some.inj h]
  · cases h

def calls : Part → List Call
  | block b => b.calls
  | stmt s => s.calls
  | expr e => e.calls
  | entry e => e.calls
  | param _ | field _ | name _ | member _ => []

theorem flatMap_calls_eq_nil {α : Type} {make : α → Part} (h : ∀ a, (make a).calls = []) (as : List α) :
    (as.map make).flatMap calls = [] := by
  rw [List.flatMap_map]
  exact List.flatMap_eq_nil_iff.mpr fun a _ => h a

theorem calls_routine (f : Routine) : f.calls = f.parts.flatMap calls := by
  obtain ⟨name, internal, params, result, body, traits, visibility, span⟩ := f
  rw [Routine.calls, Routine.parts, Block.callsOption_eq, List.flatMap_append,
    flatMap_calls_eq_nil fun _ => rfl, List.nil_append, List.flatMap_map]
  rfl

theorem calls_expr (e : Expr) : e.calls = (expr e).parts.flatMap calls ++ (expr e).call?.toList := by
  cases e
  case literal | identifier | variadic => rfl
  case member base members span =>
    rw [parts, List.flatMap_cons, flatMap_calls_eq_nil fun _ => rfl]
    rfl
  case call c =>
    obtain ⟨name, qualified, args, argTypes, target, scope, span⟩ := c
    rw [Expr.calls, Call.calls, Expr.callsList_eq, parts, List.flatMap_map]
    rfl
  all_goals simp [Expr.calls, parts, call?, calls, Entry.callsList_eq, Expr.callsList_eq, List.flatMap_map,
    calls_routine]

theorem calls_stmt (s : Stmt) : s.calls = (stmt s).parts.flatMap calls := by
  cases s
  case package | imports | «break» | «continue» => rfl
  case struct d =>
    refine (List.flatMap_eq_nil_iff.mpr fun q hq => ?_).symm
    obtain ⟨f, rfl⟩ := StructBody.eq_field_of_mem hq
    rfl
  case «variable» d =>
    obtain ⟨name, internal, type, value, mutable, visibility, scope, span⟩ := d
    rw [Stmt.calls, VarDecl.calls, Expr.callsOption_eq, parts, List.flatMap_map]
    rfl
  all_goals simp [Stmt.calls, parts, calls, Entry.callsList_eq, Expr.callsOption_eq, Block.callsOption_eq,
    Stmt.callsOption_eq, List.flatMap_map, calls_routine]

/-- The calls below a part, and the part itself if it is one. -/
theorem calls_eq (p : Part) : p.calls = p.parts.flatMap calls ++ p.call?.toList := by
  cases p with
  | block b =>
      obtain ⟨stmts, scope, span⟩ := b
      rw [calls, Block.calls, Stmt.callsList_eq, parts, List.flatMap_map]
      exact (List.append_nil _).symm
  | stmt s => exact (calls_stmt s).trans (List.append_nil _).symm
  | expr e => exact calls_expr e
  | entry e =>
      obtain ⟨name, value, span⟩ := e
      exact (List.append_nil _).symm.trans (congrArg (· ++ []) (List.append_nil _).symm)
  | param | field | name | member => rfl

theorem calls_postorder (p : Part) : p.calls = p.postorder.filterMap call? := by
  rw [calls_eq, postorder_eq, List.filterMap_append, List.filterMap_flatMap]
  refine congrArg₂ (· ++ ·) (List.flatMap_congr fun q hq => ?_) ?_
  · have := sizeOf_lt hq
    exact q.calls_postorder
  · cases hcall : p.call? <;> simp [hcall]
termination_by sizeOf p

/-! ### The order of calls -/

/-- All calls of the tree end behind their arguments. -/
inductive Closed : Part → Prop where
  | mk {p : Part} (own : ∀ c, p.call? = some c → c.Closes) (below : ∀ q ∈ p.parts, Closed q) : Closed p

theorem closes_of_none {p : Part} (h : p.call? = none) : ∀ c, p.call? = some c → c.Closes := by
  intro c hc
  rw [h] at hc
  cases hc

theorem Closed.of_none {p : Part} (h : p.call? = none) (below : ∀ q ∈ p.parts, q.Closed) : p.Closed :=
  .mk (closes_of_none h) below

theorem inOrder_flatMap {lo hi : Nat} {ps : List Part} (h : Span.InOrder lo hi (ps.map span))
    (hps : ∀ p ∈ ps, Call.InOrder p.span.start p.span.stop p.calls) :
    Call.InOrder lo hi (ps.flatMap calls) where
  bounds := by
    intro c hc
    obtain ⟨p, hp, hc⟩ := List.mem_flatMap.mp hc
    have around := h.bounds p.span (List.mem_map_of_mem hp)
    have inside := (hps p hp).bounds c hc
    omega
  ordered := by
    refine List.pairwise_flatMap.mpr ⟨fun p hp => (hps p hp).ordered, ?_⟩
    refine (List.pairwise_map.mp h.ordered).imp_of_mem fun hp hq hle c hc c' hc' => ?_
    have before := (hps _ hp).bounds c hc
    have behind := (hps _ hq).bounds c' hc'
    omega

theorem Laid.calls_inOrder {source : Source} {p : Part} (h : p.Laid source) (hc : p.Closed) :
    Call.InOrder p.span.start p.span.stop p.calls := by
  induction h with
  | @mk p within inOrder _ ih =>
      obtain ⟨own, below⟩ := hc
      have inside := inOrder_flatMap inOrder fun q hq => ih q hq (below q hq)
      rw [calls_eq]
      cases hcall : p.call? with
      | none => exact (List.append_nil _).symm ▸ inside
      | some c =>
          have closes := own c hcall
          obtain rfl := eq_of_call? hcall
          constructor
          · exact List.forall_mem_append.mpr ⟨inside.bounds, List.forall_mem_singleton.mpr
              ⟨Nat.le_refl _, closes.nonempty, Nat.le_refl _⟩⟩
          · refine List.pairwise_append.mpr ⟨inside.ordered, List.pairwise_singleton _ _, fun c' hc' d hd => ?_⟩
            obtain ⟨q, hq, hc'⟩ := List.mem_flatMap.mp hc'
            have ends := ((ih q hq (below q hq)).bounds c' hc').2.2
            obtain ⟨e, he, rfl⟩ := List.mem_map.mp hq
            rw [List.mem_singleton.mp hd]
            exact Nat.lt_of_le_of_lt ends (closes.behind e he)

/-! ### Calls that are replaced -/

variable {g : Call → Except Diagnostic Call}

theorem call?_of_replaces {p p' : Part} {c' : Call} (h : Replaces g p p') (hc' : p'.call? = some c') :
    ∃ c, p.call? = some c := by
  obtain rfl := eq_of_call? hc'
  cases p with
  | expr e =>
      obtain ⟨e', he, heq⟩ := map_eq_ok.mp h
      obtain rfl := expr.inj heq
      cases Expr.becomes he with
      | call => exact ⟨_, rfl⟩
  | block | stmt | entry =>
      obtain ⟨_, _, heq⟩ := map_eq_ok.mp h
      cases heq
  | param | field | name | member => cases h

theorem Closed.of_replaces (hg : Retargets g) {p p' : Part} (hp : p.Closed) (h : Replaces g p p') : p'.Closed := by
  induction hp generalizing p' with
  | @mk p own below ih =>
      obtain ⟨hspan, _, hparts⟩ := keeps_of_replaces hg h
      refine ⟨fun c' hc' => ?_, fun q' hq' => ?_⟩
      · obtain ⟨c, hc⟩ := call?_of_replaces h hc'
        obtain ⟨nonempty, behind⟩ := own c hc
        obtain rfl := eq_of_call? hc
        obtain rfl := eq_of_call? hc'
        have hspan : c'.span = c.span := hspan
        refine ⟨hspan ▸ nonempty, fun e' he' => ?_⟩
        obtain ⟨q, hq, hreplaces⟩ := exists_mem_of_forall₂ hparts (List.mem_map_of_mem he')
        obtain ⟨e, he, rfl⟩ := List.mem_map.mp hq
        have same : e'.span = e.span := (keeps_of_replaces hg hreplaces).span
        rw [same, hspan]
        exact behind e he
      · obtain ⟨q, hq, hreplaces⟩ := exists_mem_of_forall₂ hparts hq'
        exact ih q hq hreplaces

end Part

/-! ### Where parts lie -/

/-- The spans of the part and of all parts below it have a property. -/
inductive Part.Lies (W : Span → Prop) : Part → Prop where
  | mk {p : Part} (span : W p.span) (below : ∀ q ∈ p.parts, Lies W q) : Lies W p

namespace Part.Lies

variable {p : Part} {W : Span → Prop}

theorem span (h : p.Lies W) : W p.span := by
  cases h with
  | mk span => exact span

theorem inner (h : p.Lies W) : ∀ q ∈ p.parts, q.Lies W := by
  cases h with
  | mk _ below => exact below

theorem calls (h : p.Lies W) : ∀ c ∈ p.calls, W c.span := by
  induction h with
  | @mk p span below ih =>
      rw [calls_eq]
      refine List.forall_mem_append.mpr ⟨fun c hc => ?_, fun c hc => ?_⟩
      · obtain ⟨q, hq, hc⟩ := List.mem_flatMap.mp hc
        exact ih q hq c hc
      · obtain rfl := eq_of_call? (Option.mem_toList.mp hc)
        exact span

end Part.Lies

end OnePass
