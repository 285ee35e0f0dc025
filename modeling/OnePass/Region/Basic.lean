import OnePass.Diagnostic.Basic
import OnePass.Token.Basic

/-!
Regions: the part of a token sequence that is still to be read. Comments stay in a region, since the
place where a smaller region ends may be that of a comment, but they are never at its front and no
reader sees them. What a reader sees is `Region.pending`, with the sentinel `Region.stop` behind it.
-/

namespace OnePass

structure Region where
  source : Source
  /-- The tokens ahead. The first is no comment, and none is a sentinel. -/
  ahead : List Token
  /-- Stands behind the last token. -/
  stop : Token
  /-- The token read last, or the place where the region begins. -/
  last : Span
  /-- How many tokens have been read, comments not counted. -/
  taken : Nat
  /-- Does the region end in front of the place where it begins? Nothing can be read from one that does. -/
  reversed : Bool := false

namespace Region

open Token (Kind)

/-- The tokens from the first that is no comment. -/
def settle (ts : List Token) : List Token := ts.dropWhile Token.isComment

def significant (ts : List Token) : List Token := ts.filter (!·.isComment)

/-- The tokens of a whole file, up to the first sentinel; behind them stands that sentinel or, if there
is none, one at the end of the text. -/
def ofTokens (source : Source) (tokens : List Token) : Region where
  source
  ahead := settle (tokens.takeWhile (·.kind ≠ .eof))
  stop := (tokens.find? (·.kind = .eof)).getD (.sentinel (.ofLength source.size 0 source.id))
  last := .ofLength 0 0 source.id
  taken := 0

def pending (r : Region) : List Token := significant r.ahead

def size (r : Region) : Nat := r.ahead.length

def remaining (r : Region) : Nat := r.pending.length

def hasNext (r : Region) : Bool := !r.ahead.isEmpty

def head (r : Region) : Token := r.ahead.headD r.stop

/-- What is left behind `n` tokens and the comments around them. -/
def dropTokens : Nat → List Token → List Token
  | _, [] => []
  | n, t :: ts =>
    if t.isComment then dropTokens n ts
    else
      match n with
      | 0 => t :: ts
      | n + 1 => dropTokens n ts

/-- The token `n` places behind the next. -/
def peek (r : Region) (n : Nat) : Token := (dropTokens n r.ahead).headD r.stop

def headIs (r : Region) (kind : Kind) : Bool := r.head.kind == kind

def peekIs (r : Region) (kind : Kind) (n : Nat) : Bool := (r.peek n).kind == kind

/-- The region behind its first token. -/
def behind (r : Region) (t : Token) (ts : List Token) : Region :=
  { r with ahead := settle ts, last := t.span, taken := r.taken + 1 }

/-- Reads a token; at the end, the sentinel over and over. -/
def next (r : Region) : Token × Region :=
  match r.ahead with
  | [] => (r.stop, r)
  | t :: ts => (t, r.behind t ts)

def skip : Nat → Region → Region
  | 0, r => r
  | n + 1, r => if r.hasNext then skip n r.next.2 else r

def consume (r : Region) (kind : Kind) : Bool × Region :=
  if r.headIs kind then (true, r.next.2) else (false, r)

def fail (r : Region) (fault : Fault) : Diagnostic :=
  .located fault r.source r.head.span

def mismatch (r : Region) (kind : Kind) : Fault :=
  if r.hasNext then .expectedFound kind r.head.described else .expectedAtEnd kind

def expectOr (r : Region) (kind : Kind) (fault : Fault) : Except Diagnostic Token × Region :=
  if r.headIs kind then (.ok r.next.1, r.next.2) else (.error (r.fail fault), r)

def expect (r : Region) (kind : Kind) : Except Diagnostic Token × Region :=
  r.expectOr kind (r.mismatch kind)

/-- The span from `start` to the token read last. -/
def spanFrom (r : Region) (start : Span) : Span := start.merge r.last

theorem length_settle_le (ts : List Token) : (settle ts).length ≤ ts.length :=
  (List.dropWhile_suffix _).length_le

theorem size_behind_lt {r : Region} {t : Token} {ts : List Token} (h : r.ahead = t :: ts) :
    (r.behind t ts).size < r.size := by
  have := length_settle_le ts
  simp only [size, behind, h, List.length_cons]
  omega

end Region
end OnePass
