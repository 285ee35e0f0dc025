import OnePass.Tree.Basic

/-!
The variables that the statements of a tree declare, in the order they are written. Functions written
as expressions are not entered.
-/

namespace OnePass

mutual

def Stmt.declarations : Stmt → List VarDecl
  | .variable d => [d]
  | .module _ body _ | .while _ body _ | .block body => body.declarations
  | .function ⟨_, _, _, _, body, _, _, _⟩ => Block.declarationsOption body
  | .cond _ yes no _ => yes.declarations ++ Block.declarationsOption no
  | .for init _ _ body _ _ => Stmt.declarationsOption init ++ body.declarations
  | _ => []

def Stmt.declarationsOption : Option Stmt → List VarDecl
  | none => []
  | some s => s.declarations

def Stmt.declarationsList : List Stmt → List VarDecl
  | [] => []
  | s :: ss => s.declarations ++ Stmt.declarationsList ss

def Block.declarations : Block → List VarDecl
  | ⟨stmts, _, _⟩ => Stmt.declarationsList stmts

def Block.declarationsOption : Option Block → List VarDecl
  | none => []
  | some b => b.declarations

end

end OnePass
