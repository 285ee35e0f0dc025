import OnePass.Tree.Calls

/-!
The walk over the calls of a tree. `retarget` says what becomes of a tree where only the targets of calls are
replaced. Whatever is done for a call and given as its target, the walk does it for the calls of the tree as
these are listed, and ends with the tree that has those targets; so it ends as a walk over the list does.
-/

namespace OnePass

/-! ### Targets -/

mutual

/-- The tree in which `aim` says where the calls go; it is asked of a call when those in its arguments have
their targets. -/
def Expr.retarget (aim : Call → Target) : Expr → Expr
  | e@(.literal ..) | e@(.identifier _) | e@(.variadic _) | e@(.member ..) => e
  | .index array index span => .index (array.retarget aim) (index.retarget aim) span
  | .call c => .call (c.retarget aim)
  | .binary op lhs rhs span => .binary op (lhs.retarget aim) (rhs.retarget aim) span
  | .unary op operand span => .unary op (operand.retarget aim) span
  | .assign op target value span => .assign op (target.retarget aim) (value.retarget aim) span
  | .construct name internal fields span => .construct name internal (Entry.retargetList aim fields) span
  | .array elements span => .array (Expr.retargetList aim elements) span
  | .lambda f => .lambda (f.retarget aim)

def Expr.retargetList (aim : Call → Target) : List Expr → List Expr
  | [] => []
  | e :: es => e.retarget aim :: Expr.retargetList aim es

def Expr.retargetOption (aim : Call → Target) : Option Expr → Option Expr
  | none => none
  | some e => some (e.retarget aim)

def Entry.retarget (aim : Call → Target) : Entry → Entry
  | ⟨name, value, span⟩ => ⟨name, value.retarget aim, span⟩

def Entry.retargetList (aim : Call → Target) : List Entry → List Entry
  | [] => []
  | e :: es => e.retarget aim :: Entry.retargetList aim es

def Call.retarget (aim : Call → Target) : Call → Call
  | ⟨name, qualified, args, argTypes, target, scope, span⟩ =>
    let args := Expr.retargetList aim args
    ⟨name, qualified, args, argTypes, aim ⟨name, qualified, args, argTypes, target, scope, span⟩, scope, span⟩

def Routine.retarget (aim : Call → Target) : Routine → Routine
  | ⟨name, internal, params, result, body, traits, visibility, span⟩ =>
    ⟨name, internal, params, result, Block.retargetOption aim body, traits, visibility, span⟩

def Block.retarget (aim : Call → Target) : Block → Block
  | ⟨stmts, scope, span⟩ => ⟨Stmt.retargetList aim stmts, scope, span⟩

def Block.retargetOption (aim : Call → Target) : Option Block → Option Block
  | none => none
  | some b => some (b.retarget aim)

def VarDecl.retarget (aim : Call → Target) : VarDecl → VarDecl
  | ⟨name, internal, type, value, mutable, visibility, scope, span⟩ =>
    ⟨name, internal, type, Expr.retargetOption aim value, mutable, visibility, scope, span⟩

def Stmt.retarget (aim : Call → Target) : Stmt → Stmt
  | s@(.package ..) | s@(.imports ..) | s@(.struct _) | s@(.break _) | s@(.continue _) => s
  | .module path body span => .module path (body.retarget aim) span
  | .function f => .function (f.retarget aim)
  | .enum name internal members scope span => .enum name internal (Entry.retargetList aim members) scope span
  | .variable d => .variable (d.retarget aim)
  | .cond condition yes no span =>
    .cond (condition.retarget aim) (yes.retarget aim) (Block.retargetOption aim no) span
  | .while condition body span => .while (condition.retarget aim) (body.retarget aim) span
  | .for init condition step body scope span =>
    .for (Stmt.retargetOption aim init) (Expr.retargetOption aim condition) (Expr.retargetOption aim step)
      (body.retarget aim) scope span
  | .return value span => .return (Expr.retargetOption aim value) span
  | .block b => .block (b.retarget aim)
  | .expr e => .expr (e.retarget aim)

def Stmt.retargetOption (aim : Call → Target) : Option Stmt → Option Stmt
  | none => none
  | some s => some (s.retarget aim)

def Stmt.retargetList (aim : Call → Target) : List Stmt → List Stmt
  | [] => []
  | s :: ss => s.retarget aim :: Stmt.retargetList aim ss

end

/-- The call as `aim` is asked of it: the calls in its arguments have their targets. -/
def Call.prepared (aim : Call → Target) (c : Call) : Call := { c with args := Expr.retargetList aim c.args }

/-! ### The walk -/

section Walk

variable {m : Type → Type} [Monad m] [LawfulMonad m] {g : Call → m Call} {visit : Call → m Unit}
  {aim : Call → Target}

/-- Replacing a call is to visit it and to give it the target that `aim` says. -/
def Walks (g : Call → m Call) (visit : Call → m Unit) (aim : Call → Target) : Prop :=
  ∀ c : Call, g (c.prepared aim) = do
    visit c
    return { c.prepared aim with target := aim (c.prepared aim) }

mutual

theorem Expr.mapCalls_walk (hg : Walks g visit aim) (e : Expr) :
    e.mapCalls g = do forM e.calls visit; return e.retarget aim := by
  match e with
  | .literal .. | .identifier _ | .variadic _ | .member .. =>
      simp only [Expr.mapCalls, Expr.calls, Expr.retarget, List.forM_nil, pure_bind]
  | .index array index _ =>
      simp only [Expr.mapCalls, Expr.calls, Expr.retarget, array.mapCalls_walk hg, index.mapCalls_walk hg,
        List.forM_append, bind_assoc, pure_bind]
  | .call c => simp only [Expr.mapCalls, Expr.calls, Expr.retarget, c.mapCalls_walk hg, bind_assoc, pure_bind]
  | .binary _ lhs rhs _ =>
      simp only [Expr.mapCalls, Expr.calls, Expr.retarget, lhs.mapCalls_walk hg, rhs.mapCalls_walk hg,
        List.forM_append, bind_assoc, pure_bind]
  | .unary _ operand _ =>
      simp only [Expr.mapCalls, Expr.calls, Expr.retarget, operand.mapCalls_walk hg, bind_assoc, pure_bind]
  | .assign _ target value _ =>
      simp only [Expr.mapCalls, Expr.calls, Expr.retarget, target.mapCalls_walk hg, value.mapCalls_walk hg,
        List.forM_append, bind_assoc, pure_bind]
  | .construct _ _ fields _ =>
      simp only [Expr.mapCalls, Expr.calls, Expr.retarget, Entry.mapCallsList_walk hg fields, bind_assoc, pure_bind]
  | .array elements _ =>
      simp only [Expr.mapCalls, Expr.calls, Expr.retarget, Expr.mapCallsList_walk hg elements, bind_assoc, pure_bind]
  | .lambda f => simp only [Expr.mapCalls, Expr.calls, Expr.retarget, f.mapCalls_walk hg, bind_assoc, pure_bind]

theorem Expr.mapCallsList_walk (hg : Walks g visit aim) (es : List Expr) :
    Expr.mapCallsList g es = do forM (Expr.callsList es) visit; return Expr.retargetList aim es := by
  match es with
  | [] => simp only [Expr.mapCallsList, Expr.callsList, Expr.retargetList, List.forM_nil, pure_bind]
  | e :: es =>
      simp only [Expr.mapCallsList, Expr.callsList, Expr.retargetList, e.mapCalls_walk hg,
        Expr.mapCallsList_walk hg es, List.forM_append, bind_assoc, pure_bind]

theorem Expr.mapCallsOption_walk (hg : Walks g visit aim) (e : Option Expr) :
    Expr.mapCallsOption g e = do forM (Expr.callsOption e) visit; return Expr.retargetOption aim e := by
  match e with
  | none => simp only [Expr.mapCallsOption, Expr.callsOption, Expr.retargetOption, List.forM_nil, pure_bind]
  | some e =>
      simp only [Expr.mapCallsOption, Expr.callsOption, Expr.retargetOption, e.mapCalls_walk hg, bind_assoc, pure_bind]

theorem Entry.mapCalls_walk (hg : Walks g visit aim) (e : Entry) :
    e.mapCalls g = do forM e.calls visit; return e.retarget aim := by
  match e with
  | ⟨_, value, _⟩ =>
      simp only [Entry.mapCalls, Entry.calls, Entry.retarget, value.mapCalls_walk hg, bind_assoc, pure_bind]

theorem Entry.mapCallsList_walk (hg : Walks g visit aim) (es : List Entry) :
    Entry.mapCallsList g es = do forM (Entry.callsList es) visit; return Entry.retargetList aim es := by
  match es with
  | [] => simp only [Entry.mapCallsList, Entry.callsList, Entry.retargetList, List.forM_nil, pure_bind]
  | e :: es =>
      simp only [Entry.mapCallsList, Entry.callsList, Entry.retargetList, e.mapCalls_walk hg,
        Entry.mapCallsList_walk hg es, List.forM_append, bind_assoc, pure_bind]

theorem Call.mapCalls_walk (hg : Walks g visit aim) (c : Call) :
    c.mapCalls g = do forM c.calls visit; return c.retarget aim := by
  match c with
  | ⟨name, qualified, args, argTypes, target, scope, span⟩ =>
      have own := hg ⟨name, qualified, args, argTypes, target, scope, span⟩
      simp only [Call.prepared] at own
      simp only [Call.mapCalls, Call.calls, Call.retarget, Expr.mapCallsList_walk hg args, List.forM_append,
        List.forM_cons, List.forM_nil, own, bind_assoc, pure_bind]

theorem Routine.mapCalls_walk (hg : Walks g visit aim) (f : Routine) :
    f.mapCalls g = do forM f.calls visit; return f.retarget aim := by
  match f with
  | ⟨_, _, _, _, body, _, _, _⟩ =>
      simp only [Routine.mapCalls, Routine.calls, Routine.retarget, Block.mapCallsOption_walk hg body, bind_assoc,
        pure_bind]

theorem Block.mapCalls_walk (hg : Walks g visit aim) (b : Block) :
    b.mapCalls g = do forM b.calls visit; return b.retarget aim := by
  match b with
  | ⟨stmts, _, _⟩ =>
      simp only [Block.mapCalls, Block.calls, Block.retarget, Stmt.mapCallsList_walk hg stmts, bind_assoc, pure_bind]

theorem Block.mapCallsOption_walk (hg : Walks g visit aim) (b : Option Block) :
    Block.mapCallsOption g b = do forM (Block.callsOption b) visit; return Block.retargetOption aim b := by
  match b with
  | none => simp only [Block.mapCallsOption, Block.callsOption, Block.retargetOption, List.forM_nil, pure_bind]
  | some b =>
      simp only [Block.mapCallsOption, Block.callsOption, Block.retargetOption, b.mapCalls_walk hg, bind_assoc,
        pure_bind]

theorem VarDecl.mapCalls_walk (hg : Walks g visit aim) (d : VarDecl) :
    d.mapCalls g = do forM d.calls visit; return d.retarget aim := by
  match d with
  | ⟨_, _, _, value, _, _, _, _⟩ =>
      simp only [VarDecl.mapCalls, VarDecl.calls, VarDecl.retarget, Expr.mapCallsOption_walk hg value, bind_assoc,
        pure_bind]

theorem Stmt.mapCalls_walk (hg : Walks g visit aim) (s : Stmt) :
    s.mapCalls g = do forM s.calls visit; return s.retarget aim := by
  match s with
  | .package .. | .imports .. | .struct _ | .break _ | .continue _ =>
      simp only [Stmt.mapCalls, Stmt.calls, Stmt.retarget, List.forM_nil, pure_bind]
  | .module _ body _ =>
      simp only [Stmt.mapCalls, Stmt.calls, Stmt.retarget, body.mapCalls_walk hg, bind_assoc, pure_bind]
  | .function f => simp only [Stmt.mapCalls, Stmt.calls, Stmt.retarget, f.mapCalls_walk hg, bind_assoc, pure_bind]
  | .enum _ _ members _ _ =>
      simp only [Stmt.mapCalls, Stmt.calls, Stmt.retarget, Entry.mapCallsList_walk hg members, bind_assoc, pure_bind]
  | .variable d => simp only [Stmt.mapCalls, Stmt.calls, Stmt.retarget, d.mapCalls_walk hg, bind_assoc, pure_bind]
  | .cond condition yes no _ =>
      simp only [Stmt.mapCalls, Stmt.calls, Stmt.retarget, condition.mapCalls_walk hg, yes.mapCalls_walk hg,
        Block.mapCallsOption_walk hg no, List.forM_append, bind_assoc, pure_bind]
  | .while condition body _ =>
      simp only [Stmt.mapCalls, Stmt.calls, Stmt.retarget, condition.mapCalls_walk hg, body.mapCalls_walk hg,
        List.forM_append, bind_assoc, pure_bind]
  | .for init condition step body _ _ =>
      simp only [Stmt.mapCalls, Stmt.calls, Stmt.retarget, Stmt.mapCallsOption_walk hg init,
        Expr.mapCallsOption_walk hg condition, Expr.mapCallsOption_walk hg step, body.mapCalls_walk hg,
        List.forM_append, bind_assoc, pure_bind]
  | .return value _ =>
      simp only [Stmt.mapCalls, Stmt.calls, Stmt.retarget, Expr.mapCallsOption_walk hg value, bind_assoc, pure_bind]
  | .block b => simp only [Stmt.mapCalls, Stmt.calls, Stmt.retarget, b.mapCalls_walk hg, bind_assoc, pure_bind]
  | .expr e => simp only [Stmt.mapCalls, Stmt.calls, Stmt.retarget, e.mapCalls_walk hg, bind_assoc, pure_bind]

theorem Stmt.mapCallsOption_walk (hg : Walks g visit aim) (s : Option Stmt) :
    Stmt.mapCallsOption g s = do forM (Stmt.callsOption s) visit; return Stmt.retargetOption aim s := by
  match s with
  | none => simp only [Stmt.mapCallsOption, Stmt.callsOption, Stmt.retargetOption, List.forM_nil, pure_bind]
  | some s =>
      simp only [Stmt.mapCallsOption, Stmt.callsOption, Stmt.retargetOption, s.mapCalls_walk hg, bind_assoc, pure_bind]

theorem Stmt.mapCallsList_walk (hg : Walks g visit aim) (ss : List Stmt) :
    Stmt.mapCallsList g ss = do forM (Stmt.callsList ss) visit; return Stmt.retargetList aim ss := by
  match ss with
  | [] => simp only [Stmt.mapCallsList, Stmt.callsList, Stmt.retargetList, List.forM_nil, pure_bind]
  | s :: ss =>
      simp only [Stmt.mapCallsList, Stmt.callsList, Stmt.retargetList, s.mapCalls_walk hg,
        Stmt.mapCallsList_walk hg ss, List.forM_append, bind_assoc, pure_bind]

end

end Walk

/-! ### Targets that stay -/

mutual

theorem Expr.retarget_self (e : Expr) : e.retarget (·.target) = e := by
  match e with
  | .literal .. | .identifier _ | .variadic _ | .member .. => rfl
  | .index array index _ => rw [Expr.retarget, array.retarget_self, index.retarget_self]
  | .call c => rw [Expr.retarget, c.retarget_self]
  | .binary _ lhs rhs _ => rw [Expr.retarget, lhs.retarget_self, rhs.retarget_self]
  | .unary _ operand _ => rw [Expr.retarget, operand.retarget_self]
  | .assign _ target value _ => rw [Expr.retarget, target.retarget_self, value.retarget_self]
  | .construct _ _ fields _ => rw [Expr.retarget, Entry.retargetList_self fields]
  | .array elements _ => rw [Expr.retarget, Expr.retargetList_self elements]
  | .lambda f => rw [Expr.retarget, f.retarget_self]

theorem Expr.retargetList_self (es : List Expr) : Expr.retargetList (·.target) es = es := by
  match es with
  | [] => rfl
  | e :: es => rw [Expr.retargetList, e.retarget_self, Expr.retargetList_self es]

theorem Expr.retargetOption_self (e : Option Expr) : Expr.retargetOption (·.target) e = e := by
  match e with
  | none => rfl
  | some e => rw [Expr.retargetOption, e.retarget_self]

theorem Entry.retarget_self (e : Entry) : e.retarget (·.target) = e := by
  match e with
  | ⟨_, value, _⟩ => rw [Entry.retarget, value.retarget_self]

theorem Entry.retargetList_self (es : List Entry) : Entry.retargetList (·.target) es = es := by
  match es with
  | [] => rfl
  | e :: es => rw [Entry.retargetList, e.retarget_self, Entry.retargetList_self es]

theorem Call.retarget_self (c : Call) : c.retarget (·.target) = c := by
  match c with
  | ⟨_, _, args, _, _, _, _⟩ => rw [Call.retarget, Expr.retargetList_self args]

theorem Routine.retarget_self (f : Routine) : f.retarget (·.target) = f := by
  match f with
  | ⟨_, _, _, _, body, _, _, _⟩ => rw [Routine.retarget, Block.retargetOption_self body]

theorem Block.retarget_self (b : Block) : b.retarget (·.target) = b := by
  match b with
  | ⟨stmts, _, _⟩ => rw [Block.retarget, Stmt.retargetList_self stmts]

theorem Block.retargetOption_self (b : Option Block) : Block.retargetOption (·.target) b = b := by
  match b with
  | none => rfl
  | some b => rw [Block.retargetOption, b.retarget_self]

theorem VarDecl.retarget_self (d : VarDecl) : d.retarget (·.target) = d := by
  match d with
  | ⟨_, _, _, value, _, _, _, _⟩ => rw [VarDecl.retarget, Expr.retargetOption_self value]

theorem Stmt.retarget_self (s : Stmt) : s.retarget (·.target) = s := by
  match s with
  | .package .. | .imports .. | .struct _ | .break _ | .continue _ => rfl
  | .module _ body _ => rw [Stmt.retarget, body.retarget_self]
  | .function f => rw [Stmt.retarget, f.retarget_self]
  | .enum _ _ members _ _ => rw [Stmt.retarget, Entry.retargetList_self members]
  | .variable d => rw [Stmt.retarget, d.retarget_self]
  | .cond condition yes no _ =>
      rw [Stmt.retarget, condition.retarget_self, yes.retarget_self, Block.retargetOption_self no]
  | .while condition body _ => rw [Stmt.retarget, condition.retarget_self, body.retarget_self]
  | .for init condition step body _ _ =>
      rw [Stmt.retarget, Stmt.retargetOption_self init, Expr.retargetOption_self condition,
        Expr.retargetOption_self step, body.retarget_self]
  | .return value _ => rw [Stmt.retarget, Expr.retargetOption_self value]
  | .block b => rw [Stmt.retarget, b.retarget_self]
  | .expr e => rw [Stmt.retarget, e.retarget_self]

theorem Stmt.retargetOption_self (s : Option Stmt) : Stmt.retargetOption (·.target) s = s := by
  match s with
  | none => rfl
  | some s => rw [Stmt.retargetOption, s.retarget_self]

theorem Stmt.retargetList_self (ss : List Stmt) : Stmt.retargetList (·.target) ss = ss := by
  match ss with
  | [] => rfl
  | s :: ss => rw [Stmt.retargetList, s.retarget_self, Stmt.retargetList_self ss]

end

/-! ### Visits -/

/-- Notes a call down and leaves it as it is. -/
def record (c : Call) : StateM (List Call) Call := do
  modify (· ++ [c])
  return c

/-- The walk comes to the calls of a tree in the order of the list. -/
theorem Block.mapCalls_record (b : Block) (noted : List Call) :
    (b.mapCalls record).run noted = (b, noted ++ b.calls) := by
  have walks : Walks record (fun c => modify (· ++ [c])) (·.target) := by
    intro c
    rw [Call.prepared, Expr.retargetList_self]
    cases c
    rfl
  have all (cs noted : List Call) :
      (forM cs fun c => (modify (· ++ [c]) : StateM (List Call) Unit)).run noted = ((), noted ++ cs) := by
    induction cs generalizing noted with
    | nil => exact congrArg (Prod.mk ()) (List.append_nil noted).symm
    | cons c cs ih =>
        rw [List.forM_cons, StateT.run_bind]
        exact (ih (noted ++ [c])).trans (congrArg (Prod.mk ()) (List.append_assoc ..))
  rw [b.mapCalls_walk walks, b.retarget_self, StateT.run_bind, all]
  rfl

end OnePass
