import OnePass.Grammar.Unit

/-!
A parser with marks. What is around the place that is read is noted in a state: the functions and the loops,
how deep it is, and the struct whose fields are read. A production is told the file and the scope and nothing
else. It makes a mark, reads, and takes the mark back, whether what it read was accepted or not; what it asks is
answered by the marks. The productions are the same as those of `Parse`.
-/

namespace OnePass
namespace Grammar

/-- A function whose body is being read, with the number of loops outside of it. -/
structure Activation extends Enclosing where
  outerLoops : Nat

structure Marks where
  /-- The innermost first. -/
  functions : List Activation := []
  /-- The loops within the innermost function. -/
  loops : Nat := 0
  /-- The struct whose fields are being read. -/
  declaring : Option String := none
  depth : Nat := 0

structure Parser where
  registry : Registry
  marks : Marks := {}

/-- What a production is told of a place. -/
def Context.place (ctx : Context) : Context := { source := ctx.source, scope := ctx.scope }

@[simp]
theorem Context.place_scope (ctx : Context) : ctx.place.scope = ctx.scope := rfl

/-- Reading with a parser at hand. -/
abbrev Tracked := ExceptT Diagnostic (StateM Parser)

namespace Marks

variable (σ : Marks)

def descend : Marks := { σ with depth := σ.depth + 1 }

def ascend : Marks := { σ with depth := σ.depth - 1 }

def enterLoop : Marks := { σ with loops := σ.loops + 1 }

def leaveLoop : Marks := { σ with loops := σ.loops - 1 }

/-- Loops outside of a function do not count in it. -/
def enterFunction (routine : Enclosing) : Marks :=
  { σ with functions := ⟨routine, σ.loops⟩ :: σ.functions, loops := 0 }

def leaveFunction : Marks :=
  match σ.functions with
  | [] => σ
  | f :: functions => { σ with functions, loops := f.outerLoops }

def beginStruct (name : String) : Marks := { σ with declaring := some name }

def endStruct : Marks := { σ with declaring := none }

def inLoop : Bool := σ.loops != 0

def routine : Option Enclosing := σ.functions.head?.map Activation.toEnclosing

/-- What the marks say of a place. -/
def context (source : Source) (scope : ScopeId) : Context where
  source
  scope
  depth := σ.depth
  inLoop := σ.inLoop
  routine := σ.routine

@[simp]
theorem ascend_descend : σ.descend.ascend = σ := rfl

@[simp]
theorem leaveLoop_enterLoop : σ.enterLoop.leaveLoop = σ := rfl

@[simp]
theorem leaveFunction_enterFunction (routine : Enclosing) : (σ.enterFunction routine).leaveFunction = σ := rfl

theorem endStruct_beginStruct (name : String) (h : σ.declaring = none) : (σ.beginStruct name).endStruct = σ := by
  rw [endStruct, ← h]
  rfl

end Marks

namespace Tracked

variable {α : Type}

instance : MonadStateOf Registry Tracked where
  get := return (← getThe Parser).registry
  set reg := modifyThe Parser fun parser => { parser with registry := reg }
  modifyGet f := modifyGetThe Parser fun parser =>
    let (a, registry) := f parser.registry
    (a, { parser with registry })

def marks : Tracked Marks := return (← getThe Parser).marks

def mark (change : Marks → Marks) : Tracked Unit :=
  modifyThe Parser fun parser => { parser with marks := change parser.marks }

/-- Reads, and takes a mark back after that or after a failure. -/
def leaving (change : Marks → Marks) (read : Tracked α) : Tracked α := ExceptT.mk do
  let x ← read.run
  modifyThe Parser fun parser => { parser with marks := change parser.marks }
  return x

/-- All is in the marks. The mark of a level that is too deep is left. -/
instance : Account Tracked where
  nested ctx r read := do
    mark Marks.descend
    if (← marks).depth > maxDepth then throw (r.fail .nestedTooDeep)
    leaving Marks.ascend (read ctx)
  looping ctx read := do
    mark Marks.enterLoop
    leaving Marks.leaveLoop (read ctx)
  inside ctx routine read := do
    mark (·.enterFunction routine)
    leaving Marks.leaveFunction (read ctx)
  declaring name read := do
    mark (·.beginStruct name)
    leaving Marks.endStruct read
  inLoop _ := return (← marks).inLoop
  routine _ := return (← marks).routine
  declared _ := return (← marks).declaring

theorem leaving_run (change : Marks → Marks) (read : Tracked α) (parser : Parser) :
    (leaving change read).run.run parser =
      let (x, parser) := read.run.run parser
      (x, { parser with marks := change parser.marks }) :=
  rfl

theorem nested_run (ctx : Context) (r : Region) (read : Context → Tracked α) (reg : Registry) (σ : Marks) :
    (nested ctx r read).run.run ⟨reg, σ⟩ =
      if σ.depth < maxDepth then (leaving Marks.ascend (read ctx)).run.run ⟨reg, σ.descend⟩
      else (.error (r.fail .nestedTooDeep), ⟨reg, σ.descend⟩) := by
  change (if σ.depth + 1 > maxDepth then throw (r.fail .nestedTooDeep) >>= fun _ => leaving Marks.ascend (read ctx)
    else leaving Marks.ascend (read ctx) : Tracked α).run.run ⟨reg, σ.descend⟩ = _
  by_cases hd : σ.depth < maxDepth
  · rw [if_pos hd, if_neg (Nat.not_lt_of_le hd)]
  · rw [if_neg hd, if_pos (Nat.lt_succ_of_le (Nat.le_of_not_lt hd))]
    rfl

end Tracked
end Grammar
end OnePass
