import OnePass.Proofs.Twin.Unit

/-!
Comments mean nothing. A list of tokens, whether it was cut from a text or not, is read as what readers see of
it: its tokens that are no comments, up to the first sentinel. The tree is the same to its spans, a failure
points at the same places, and the registry has the same in it.
-/

namespace OnePass

theorem Registry.readTokens_visible (reg : Registry) (source : Source) (tokens : List Token) :
    reg.readTokens source (Token.visible tokens) = reg.readTokens source tokens := by
  have all := Grammar.unit_alike (Survey.plain source tokens).start_visible reg
  have visible := Grammar.unit_alike (Survey.plain source (Token.visible tokens)).start.twin reg
  exact visible.eq.trans all.eq.symm

end OnePass
