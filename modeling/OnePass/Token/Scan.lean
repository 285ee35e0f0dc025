import OnePass.Diagnostic.Basic
import OnePass.Text.Blank
import OnePass.Token.Basic

/-!
Cutting a text into tokens. Each class of tokens has a scanner of its own, which sees the text from
the token's first character on and says how many more belong to it. Comments are kept, so that
blanks are all that is between two tokens.
-/

namespace OnePass

def byteCount : List Char → Nat
  | [] => 0
  | c :: cs => c.utf8Size + byteCount cs

namespace Token
namespace Scan

/-- A token at the front of a text: what it says, and how many characters it takes beyond the
first. -/
structure Piece where
  kind : Kind
  lexeme : List Char
  extra : Nat

/-- A text that begins with no token, and how many characters were read to see that. -/
structure Stuck where
  fault : Fault
  length : Nat

/-! ### Words -/

def isWordStart (c : Char) : Bool := c.isAlpha || c == '_' || c == '$'

def isWordChar (c : Char) : Bool := c.isAlphanum || c == '_' || c == '$'

def word (c : Char) (cs : List Char) : Piece :=
  let tail := cs.takeWhile isWordChar
  ⟨(Kind.ofWord? (String.ofList (c :: tail))).getD .identifier, c :: tail, tail.length⟩

/-! ### Numbers -/

def isHexDigit (c : Char) : Bool :=
  c.isDigit || ('a' ≤ c && c ≤ 'f') || ('A' ≤ c && c ≤ 'F')

/-- A number without suffix, or with one that changes its kind and is no part of its lexeme. -/
def suffixed (c : Char) (tail rest suffixes : List Char) (plain marked : Kind) : Piece :=
  if rest.head?.any (suffixes.contains ·) then ⟨marked, c :: tail, tail.length + 1⟩
  else ⟨plain, c :: tail, tail.length⟩

def integer (c : Char) (tail rest : List Char) : Piece :=
  suffixed c tail rest ['L', 'l'] .integer .longInteger

/-- Hexadecimal digits after `0x`, where `x` is in either case. -/
def hexadecimal (x : Char) (cs : List Char) : Except Stuck Piece :=
  let digits := cs.takeWhile isHexDigit
  if digits.isEmpty then .error ⟨.missingHexDigits, 2⟩
  else .ok (integer '0' (x :: digits) (cs.dropWhile isHexDigit))

/-- Digits, and a fraction if a digit follows the point. -/
def decimal (c : Char) (cs : List Char) : Piece :=
  let digits := cs.takeWhile Char.isDigit
  match cs.dropWhile Char.isDigit with
  | '.' :: d :: rest =>
    if d.isDigit then
      suffixed c (digits ++ '.' :: d :: rest.takeWhile Char.isDigit) (rest.dropWhile Char.isDigit)
        ['D', 'd'] .float .doubleFloat
    else integer c digits ('.' :: d :: rest)
  | rest => integer c digits rest

def number (c : Char) (cs : List Char) : Except Stuck Piece :=
  match c, cs with
  | '0', 'x' :: rest => hexadecimal 'x' rest
  | '0', 'X' :: rest => hexadecimal 'X' rest
  | _, _ => .ok (decimal c cs)

/-! ### Strings and characters -/

def unescape? : Char → Option Char
  | 'n' => some '\n'
  | 'r' => some '\r'
  | 't' => some '\t'
  | '\\' => some '\\'
  | '"' => some '"'
  | '\'' => some '\''
  | '0' => some '\x00'
  | _ => none

/-- The value of a string up to its closing quote, and how many characters that takes with it. -/
def stringBody : List Char → Except Stuck (List Char × Nat)
  | [] => .error ⟨.unterminatedString, 0⟩
  | ['\\'] => .error ⟨.unterminatedEscape, 1⟩
  | '\\' :: e :: cs =>
    match unescape? e with
    | none => .error ⟨.unknownEscape e, 2⟩
    | some c =>
      match stringBody cs with
      | .ok (value, n) => .ok (c :: value, n + 2)
      | .error stuck => .error ⟨stuck.fault, stuck.length + 2⟩
  | c :: cs =>
    if c = '"' then .ok ([], 1)
    else if c = '\n' then .error ⟨.unterminatedString, 1⟩
    else
      match stringBody cs with
      | .ok (value, n) => .ok (c :: value, n + 1)
      | .error stuck => .error ⟨stuck.fault, stuck.length + 1⟩

def string (cs : List Char) : Except Stuck Piece :=
  match stringBody cs with
  | .ok (value, n) => .ok ⟨.string, value, n⟩
  | .error stuck => .error ⟨stuck.fault, stuck.length + 1⟩

/-- The closing quote of a character literal of which `n` characters have been read. -/
def closeChar (value : Char) (n : Nat) : List Char → Except Stuck Piece
  | [] => .error ⟨.unterminatedChar, n⟩
  | c :: _ =>
    if c = '\'' then .ok ⟨.char, [value], n⟩
    else .error ⟨.unterminatedChar, n + 1⟩

def char : List Char → Except Stuck Piece
  | [] => .error ⟨.emptyChar, 1⟩
  | ['\\'] => .error ⟨.unterminatedEscape, 2⟩
  | '\\' :: e :: cs =>
    match unescape? e with
    | none => .error ⟨.unknownEscape e, 3⟩
    | some c => closeChar c 3 cs
  | c :: cs =>
    if c = '\'' ∨ c = '\n' then .error ⟨.emptyChar, 2⟩ else closeChar c 2 cs

/-! ### Comments and operators -/

def lineComment (c : Char) (cs : List Char) : Piece :=
  let tail := cs.takeWhile (· ≠ '\n')
  ⟨.comment, c :: tail, tail.length⟩

/-- Number of characters up to the first `*/`, with it. -/
def blockLength? : List Char → Option Nat
  | [] => none
  | '*' :: '/' :: _ => some 2
  | _ :: cs => (blockLength? cs).map (· + 1)

/-- A comment whose first two characters are `open₁` and `open₂`. -/
def blockComment (open₁ open₂ : Char) (cs : List Char) : Except Stuck Piece :=
  match blockLength? cs with
  | some n => .ok ⟨.comment, open₁ :: open₂ :: cs.take n, n + 1⟩
  | none => .error ⟨.unterminatedComment, cs.length + 2⟩

def operator (c : Char) (cs : List Char) : Except Stuck Piece :=
  match Kind.operators.find? fun (spelling, _) => spelling.toList.isPrefixOf (c :: cs) with
  | some (spelling, kind) => .ok ⟨kind, spelling.toList, spelling.length - 1⟩
  | none => .error ⟨.unexpectedChar c, 1⟩

def token (c : Char) (cs : List Char) : Except Stuck Piece :=
  if isWordStart c then .ok (word c cs)
  else if c.isDigit then number c cs
  else
    match c, cs with
    | '"', _ => string cs
    | '\'', _ => char cs
    | '/', '/' :: _ => .ok (lineComment c cs)
    | '/', '*' :: rest => blockComment '/' '*' rest
    | _, _ => operator c cs

/-- The tokens of the text `cs`, which starts at byte `offset` of the file. Its first `skip` characters
belong to the token before. -/
def tokens (source : Source) :
    (skip offset : Nat) → (cs : List Char) → Except Diagnostic (List Token)
  | _, offset, [] => .ok [sentinel (.ofLength offset 0 source.id)]
  | skip + 1, offset, c :: cs => tokens source skip (offset + c.utf8Size) cs
  | 0, offset, c :: cs =>
    if isBlank c then tokens source 0 (offset + c.utf8Size) cs
    else
      match token c cs with
      | .error stuck =>
        let read := byteCount ((c :: cs).take stuck.length)
        .error (.located stuck.fault source (.ofLength offset read source.id))
      | .ok piece =>
        let read := byteCount ((c :: cs).take (piece.extra + 1))
        match tokens source piece.extra (offset + c.utf8Size) cs with
        | .error d => .error d
        | .ok later =>
          .ok (⟨piece.kind, .ofList piece.lexeme, .ofLength offset read source.id⟩ :: later)

end Scan
end Token

def Source.tokens (source : Source) : Except Diagnostic (List Token) :=
  Token.Scan.tokens source 0 0 source.text.toList

end OnePass
