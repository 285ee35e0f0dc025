import OnePass.Text.Span
import OnePass.Token.Kind

/-!
Tokens: a kind, the text it was written with, and where.
-/

namespace OnePass

structure Token where
  kind : Token.Kind
  /-- What was written, without a number's suffix; of a string or character, its value. -/
  lexeme : String
  span : Span
deriving DecidableEq

namespace Token

def sentinel (span : Span) : Token := ⟨.eof, "", span⟩

def isComment (t : Token) : Bool := t.kind == .comment

/-- How a diagnostic names a token that it did not expect. -/
def described (t : Token) : String :=
  if t.lexeme.isEmpty then t.kind.text else t.lexeme

end Token
end OnePass
