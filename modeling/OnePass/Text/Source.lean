/-!
Source files and their coordinates. Offsets count bytes; lines and columns start at one, and columns
count characters. Every query is total: an offset inside a character stands for that character's
first byte, and one beyond the end for the end.
-/

namespace OnePass

/-- A file as it was read, with the number that its spans carry. -/
structure Source where
  id : Nat
  path : String
  text : String

/-- A place in a file as a reader counts it, from one. -/
structure Position where
  line : Nat
  column : Nat
deriving DecidableEq

/-- The whole characters at the front of `cs` that fit into `n` bytes. -/
def takeBytes : Nat → List Char → List Char
  | _, [] => []
  | n, c :: cs => if c.utf8Size ≤ n then c :: takeBytes (n - c.utf8Size) cs else []

/-- Line number `n`, counted from zero, without its newline; empty if there is none. -/
def lineChars : Nat → List Char → List Char
  | _, [] => []
  | 0, cs => cs.takeWhile (· ≠ '\n')
  | n + 1, cs => lineChars n ((cs.dropWhile (· ≠ '\n')).drop 1)

/-- Carriage returns at the end of a line do not belong to it. -/
def dropReturns (cs : List Char) : List Char :=
  (cs.reverse.dropWhile (· = '\r')).reverse

namespace Source

def size (s : Source) : Nat := s.text.utf8ByteSize

def before (s : Source) (offset : Nat) : List Char :=
  takeBytes offset s.text.toList

def position (s : Source) (offset : Nat) : Position where
  line := (s.before offset).count '\n' + 1
  column := ((s.before offset).reverse.takeWhile (· ≠ '\n')).length + 1

/-- The text of a line, counted from one, without what ends it. Line zero is the first line. -/
def lineText (s : Source) (line : Nat) : String :=
  String.ofList (dropReturns (lineChars (line - 1) s.text.toList))

/-- The characters between two byte offsets; none if they are out of order. -/
def snippet (s : Source) (start stop : Nat) : String :=
  String.ofList ((s.before stop).drop (s.before start).length)

end Source
end OnePass
