import OnePass.Tree.Basic

/-!
Whether every way through a block ends in a `return`. Loops are not relied on, whatever their
condition.
-/

namespace OnePass

mutual

def Stmt.returns : Stmt → Bool
  | .return .. => true
  | .block b => b.returns
  | .cond _ yes (some no) _ => yes.returns && no.returns
  | _ => false

def Stmt.anyReturns : List Stmt → Bool
  | [] => false
  | s :: ss => s.returns || Stmt.anyReturns ss

def Block.returns : Block → Bool
  | ⟨stmts, _, _⟩ => Stmt.anyReturns stmts

end

end OnePass
