/-!
Byte ranges of a source file. A span says where it lies and in which file; it does not say that
the file is that long.
-/

namespace OnePass

/-- The bytes from `start` up to and without `stop` of the file numbered `file`. -/
structure Span where
  start : Nat
  stop : Nat
  file : Nat
deriving DecidableEq

namespace Span

/-- The `length` bytes from `offset` on. -/
def ofLength (offset length file : Nat) : Span :=
  ⟨offset, offset + length, file⟩

def zero : Span := ⟨0, 0, 0⟩

/-- The empty span in front of `s`. -/
def opening (s : Span) : Span := ofLength s.start 0 s.file

/-- The least span that covers both, in the file of the first. -/
def merge (a b : Span) : Span :=
  ⟨min a.start b.start, max a.stop b.stop, a.file⟩

def length (s : Span) : Nat := s.stop - s.start

def isEmpty (s : Span) : Bool := s.start == s.stop

end Span
end OnePass
