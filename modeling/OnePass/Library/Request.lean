import OnePass.Token.Basic

/-!
The imports that a file asks for, read off its tokens before the file itself is read. A path that is
not followed by a list may end in the name of an item, so it stands for two modules.
-/

namespace OnePass
namespace Library

/-- An import, as far as it says which file is wanted. -/
structure Request where
  /-- Never empty. -/
  segments : List String
  isList : Bool
  /-- The keyword. -/
  span : Span
deriving DecidableEq

namespace Request

/-- The modules that the path may name, the longer path first. -/
def candidates (request : Request) : List (List String) :=
  if request.isList || request.segments.length ≤ 1 then [request.segments]
  else [request.segments, request.segments.dropLast]

/-- The path at the front of some tokens, and whether a list follows it. A `::` with nothing after it
does not belong to the path. -/
def path : List Token → List String × Bool
  | name :: separator :: next :: rest =>
    if name.kind ≠ .identifier then ([], false)
    else if separator.kind ≠ .colonColon then ([name.lexeme], false)
    else if next.kind = .leftBrace then ([name.lexeme], true)
    else
      let (segments, isList) := path (next :: rest)
      (name.lexeme :: segments, isList)
  | name :: _ => if name.kind = .identifier then ([name.lexeme], false) else ([], false)
  | [] => ([], false)

def ofSignificant : List Token → List Request
  | [] => []
  | token :: rest =>
    if token.kind ≠ .kwImport then ofSignificant rest
    else match path rest with
      | ([], _) => ofSignificant rest
      | (segments, isList) => ⟨segments, isList, token.span⟩ :: ofSignificant rest

def ofTokens (tokens : List Token) : List Request :=
  ofSignificant (tokens.filter (!·.isComment))

end Request
end Library
end OnePass
