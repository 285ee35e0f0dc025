import OnePass.Diagnostic.Fault
import OnePass.Text.Source
import OnePass.Text.Span

/-!
Diagnostics: a fault, the source ranges it points at, and possibly a hint. `Diagnostic.render` shows
each range as an excerpt with carets under it; `Diagnostic.report` is the same as a record.
-/

namespace OnePass

structure Reference where
  source : Source
  span : Span

structure Diagnostic where
  fault : Fault
  references : List Reference := []
  hint : Option String := none

namespace Diagnostic

def category (d : Diagnostic) : Fault.Category := d.fault.category

def message (d : Diagnostic) : String := d.fault.message

def located (fault : Fault) (source : Source) (span : Span) : Diagnostic :=
  { fault, references := [⟨source, span⟩] }

/-- Points at one more range. A file that could not be read has no ranges. -/
def addReference (d : Diagnostic) (source : Source) (span : Span) : Diagnostic :=
  match d.category with
  | .io => d
  | _ => { d with references := d.references ++ [⟨source, span⟩] }

/-- Points at a range unless the diagnostic already points somewhere. -/
def orReference (d : Diagnostic) (source : Source) (span : Span) : Diagnostic :=
  if d.references.isEmpty then d.addReference source span else d

def setHint (d : Diagnostic) (hint : String) : Diagnostic :=
  match d.category with
  | .io => d
  | _ => { d with hint := some hint }

def span? (d : Diagnostic) : Option Span := d.references.head?.map (·.span)

def heading (d : Diagnostic) : String := s!"{d.category.text} error: {d.message}"

end Diagnostic

def repeated (c : Char) (n : Nat) : String := String.ofList (List.replicate n c)

namespace Reference

def position (r : Reference) : Position := r.source.position r.span.start

/-- How many carets stand under the line: one for each character of the span that is on it, and
at least one. -/
def caretCount (r : Reference) : Nat :=
  let onLine := (r.source.lineText r.position.line).length - (r.position.column - 1)
  max 1 (min (r.source.snippet r.span.start r.span.stop).length onLine)

/-- The line that the range starts on, with carets under the range. -/
def excerpt (r : Reference) : String :=
  let ⟨line, column⟩ := r.position
  let margin := repeated ' ' (toString line).length
  let indent := repeated ' ' (column - 1)
  let carets := repeated '^' r.caretCount
  s!"{margin}--> {r.source.path}:{line}:{column}\n" ++
    s!"{margin} ┃\n" ++
    s!"{line} ┃ {r.source.lineText line}\n" ++
    s!"{margin} ┃ {indent}{carets}\n"

end Reference

namespace Diagnostic

def render (d : Diagnostic) : String :=
  d.heading ++ "\n" ++ String.join (d.references.map (·.excerpt)) ++
    (match d.hint with
      | some hint => s!"help: {hint}\n"
      | none => "")

end Diagnostic

/-- A diagnostic as a record; the location is that of the first reference. -/
structure Report where
  /-- Absent for a file that could not be read. -/
  category : Option Fault.Category
  message : String
  file : Option String
  line : Option Nat
  column : Option Nat
  length : Option Nat
  hint : Option String

namespace Diagnostic

def report (d : Diagnostic) : Report :=
  let first := d.references.head?
  { category := match d.category with
      | .io => none
      | category => some category
    message := d.message
    file := first.map (·.source.path)
    line := first.map (·.position.line)
    column := first.map (·.position.column)
    length := first.map (·.span.length)
    hint := d.hint }

end Diagnostic
end OnePass
