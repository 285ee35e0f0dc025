import OnePass.Tree.Basic

/-!
The calls of a tree, in the order in which they end: the arguments of a call before the call itself,
all else as it is written. `calls` lists them; `mapCalls` replaces them one after the other, and what
it passes to its function has its arguments already replaced.
-/

namespace OnePass

mutual

def Expr.calls : Expr → List Call
  | .literal .. | .identifier _ | .variadic _ | .member .. => []
  | .index array index _ => array.calls ++ index.calls
  | .call c => c.calls
  | .binary _ lhs rhs _ => lhs.calls ++ rhs.calls
  | .unary _ operand _ => operand.calls
  | .assign _ target value _ => target.calls ++ value.calls
  | .construct _ _ fields _ => Entry.callsList fields
  | .array elements _ => Expr.callsList elements
  | .lambda f => f.calls

def Expr.callsList : List Expr → List Call
  | [] => []
  | e :: es => e.calls ++ Expr.callsList es

def Expr.callsOption : Option Expr → List Call
  | none => []
  | some e => e.calls

def Entry.calls : Entry → List Call
  | ⟨_, value, _⟩ => value.calls

def Entry.callsList : List Entry → List Call
  | [] => []
  | e :: es => e.calls ++ Entry.callsList es

def Call.calls : Call → List Call
  | c@⟨_, _, args, _, _, _, _⟩ => Expr.callsList args ++ [c]

def Routine.calls : Routine → List Call
  | ⟨_, _, _, _, body, _, _, _⟩ => Block.callsOption body

def Block.calls : Block → List Call
  | ⟨stmts, _, _⟩ => Stmt.callsList stmts

def Block.callsOption : Option Block → List Call
  | none => []
  | some b => b.calls

def VarDecl.calls : VarDecl → List Call
  | ⟨_, _, _, value, _, _, _, _⟩ => Expr.callsOption value

def Stmt.calls : Stmt → List Call
  | .package .. | .imports .. | .struct _ | .break _ | .continue _ => []
  | .module _ body _ => body.calls
  | .function f => f.calls
  | .enum _ _ members _ _ => Entry.callsList members
  | .variable d => d.calls
  | .cond condition yes no _ => condition.calls ++ yes.calls ++ Block.callsOption no
  | .while condition body _ => condition.calls ++ body.calls
  | .for init condition step body _ _ =>
    Stmt.callsOption init ++ Expr.callsOption condition ++ Expr.callsOption step ++ body.calls
  | .return value _ => Expr.callsOption value
  | .block b => b.calls
  | .expr e => e.calls

def Stmt.callsOption : Option Stmt → List Call
  | none => []
  | some s => s.calls

def Stmt.callsList : List Stmt → List Call
  | [] => []
  | s :: ss => s.calls ++ Stmt.callsList ss

end

section MapCalls

variable {m : Type → Type} [Monad m]

mutual

def Expr.mapCalls (g : Call → m Call) : Expr → m Expr
  | e@(.literal ..) | e@(.identifier _) | e@(.variadic _) | e@(.member ..) => pure e
  | .index array index span => do return .index (← array.mapCalls g) (← index.mapCalls g) span
  | .call c => do return .call (← c.mapCalls g)
  | .binary op lhs rhs span => do return .binary op (← lhs.mapCalls g) (← rhs.mapCalls g) span
  | .unary op operand span => do return .unary op (← operand.mapCalls g) span
  | .assign op target value span => do
    return .assign op (← target.mapCalls g) (← value.mapCalls g) span
  | .construct name internal fields span => do
    return .construct name internal (← Entry.mapCallsList g fields) span
  | .array elements span => do return .array (← Expr.mapCallsList g elements) span
  | .lambda f => do return .lambda (← f.mapCalls g)

def Expr.mapCallsList (g : Call → m Call) : List Expr → m (List Expr)
  | [] => pure []
  | e :: es => do return (← e.mapCalls g) :: (← Expr.mapCallsList g es)

def Expr.mapCallsOption (g : Call → m Call) : Option Expr → m (Option Expr)
  | none => pure none
  | some e => do return some (← e.mapCalls g)

def Entry.mapCalls (g : Call → m Call) : Entry → m Entry
  | ⟨name, value, span⟩ => do return ⟨name, ← value.mapCalls g, span⟩

def Entry.mapCallsList (g : Call → m Call) : List Entry → m (List Entry)
  | [] => pure []
  | e :: es => do return (← e.mapCalls g) :: (← Entry.mapCallsList g es)

def Call.mapCalls (g : Call → m Call) : Call → m Call
  | ⟨name, qualified, args, argTypes, target, scope, span⟩ => do
    g ⟨name, qualified, ← Expr.mapCallsList g args, argTypes, target, scope, span⟩

def Routine.mapCalls (g : Call → m Call) : Routine → m Routine
  | ⟨name, internal, params, result, body, traits, visibility, span⟩ => do
    return ⟨name, internal, params, result, ← Block.mapCallsOption g body, traits, visibility, span⟩

def Block.mapCalls (g : Call → m Call) : Block → m Block
  | ⟨stmts, scope, span⟩ => do return ⟨← Stmt.mapCallsList g stmts, scope, span⟩

def Block.mapCallsOption (g : Call → m Call) : Option Block → m (Option Block)
  | none => pure none
  | some b => do return some (← b.mapCalls g)

def VarDecl.mapCalls (g : Call → m Call) : VarDecl → m VarDecl
  | ⟨name, internal, type, value, mutable, visibility, scope, span⟩ => do
    return ⟨name, internal, type, ← Expr.mapCallsOption g value, mutable, visibility, scope, span⟩

def Stmt.mapCalls (g : Call → m Call) : Stmt → m Stmt
  | s@(.package ..) | s@(.imports ..) | s@(.struct _) | s@(.break _) | s@(.continue _) => pure s
  | .module path body span => do return .module path (← body.mapCalls g) span
  | .function f => do return .function (← f.mapCalls g)
  | .enum name internal members scope span => do
    return .enum name internal (← Entry.mapCallsList g members) scope span
  | .variable d => do return .variable (← d.mapCalls g)
  | .cond condition yes no span => do
    return .cond (← condition.mapCalls g) (← yes.mapCalls g) (← Block.mapCallsOption g no) span
  | .while condition body span => do
    return .while (← condition.mapCalls g) (← body.mapCalls g) span
  | .for init condition step body scope span => do
    return .for (← Stmt.mapCallsOption g init) (← Expr.mapCallsOption g condition)
      (← Expr.mapCallsOption g step) (← body.mapCalls g) scope span
  | .return value span => do return .return (← Expr.mapCallsOption g value) span
  | .block b => do return .block (← b.mapCalls g)
  | .expr e => do return .expr (← e.mapCalls g)

def Stmt.mapCallsOption (g : Call → m Call) : Option Stmt → m (Option Stmt)
  | none => pure none
  | some s => do return some (← s.mapCalls g)

def Stmt.mapCallsList (g : Call → m Call) : List Stmt → m (List Stmt)
  | [] => pure []
  | s :: ss => do return (← s.mapCalls g) :: (← Stmt.mapCallsList g ss)

end

end MapCalls

end OnePass
