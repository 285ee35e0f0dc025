import OnePass.Diagnostic.Fault
import OnePass.Text.Join

/-!
Files at locations. A location is the list of names from the top down by which a file is known; a path is
what a user writes, and has many spellings for one location. Of a `FileSystem` it is known that a path leads to
one location at most and that there are finitely many files; how it follows paths, and which files can be read, is
left open.

A `FileTree` is one without links. `FileTree.locate` follows a path one name at a time, so a path through
something that is no directory leads nowhere, also if it comes back by `..`.
-/

namespace OnePass

/-- Names from the top of the tree down. -/
abbrev Location := List String

/-- The pieces of a text between slashes; one more than there are slashes. -/
def slashPieces : List Char → List (List Char)
  | [] => [[]]
  | c :: cs =>
    if c = '/' then [] :: slashPieces cs
    else match slashPieces cs with
      | [] => [[c]]
      | piece :: pieces => (c :: piece) :: pieces

/-- The names that a path is made of, empty ones with them. -/
def pathNames (path : String) : List String :=
  (slashPieces path.toList).map String.ofList

/-- The names that tell paths apart. Only at the front is `.` one of them. -/
def pathComponents (path : String) : List String :=
  match pathNames path with
  | [] | [""] => []
  | name :: names => name :: names.filter fun name => name ≠ "" ∧ name ≠ "."

/-- What follows the last directory of a path, without its extension. A name that starts with its
only dot has no extension. A path that ends in no name stands for itself. -/
def stem (path : String) : String :=
  match (pathNames path).reverse.dropWhile fun name => name = "" ∨ name = "." with
  | [] | ".." :: _ => path
  | name :: _ =>
    match name.toList.reverse.dropWhile (· ≠ '.') with
    | [] | ['.'] => name
    | _ :: front => String.ofList front.reverse

def underDirectory (directory relative : String) : String :=
  match directory.toList.getLast? with
  | none | some '/' => directory ++ relative
  | _ => directory ++ "/" ++ relative

structure FileSystem where
  /-- Where a path leads, when all links have been followed. -/
  locate : String → Except Obstacle Location
  /-- The locations of files, of which some may not be readable. -/
  files : List Location
  read : Location → Except Obstacle String
  pathOf : Location → String
  mem_files_of_read : ∀ {here : Location} {text : String}, read here = .ok text → here ∈ files

namespace FileSystem

variable (disk : FileSystem)

def isFile (here : Location) : Bool := disk.files.contains here

def fileAt? (path : String) : Option Location :=
  match disk.locate path with
  | .ok here => if disk.isFile here then some here else none
  | .error _ => none

variable {disk} {here : Location}

theorem isFile_iff : disk.isFile here = true ↔ here ∈ disk.files := List.contains_iff_mem

theorem isFile_of_read {text : String} (h : disk.read here = .ok text) : disk.isFile here = true :=
  isFile_iff.mpr (disk.mem_files_of_read h)

theorem isFile_of_fileAt? {path : String} (h : disk.fileAt? path = some here) : disk.isFile here = true := by
  unfold fileAt? at h
  split at h
  · split at h <;> simp_all
  · simp at h

end FileSystem

structure FileTree where
  /-- What the text of a location begins with. -/
  top : String := "/"
  workingDirectory : Location := []
  files : List (Location × String)
  /-- Directories that need not have a file in them. -/
  directories : List Location := []

namespace FileTree

variable (tree : FileTree)

def text? (here : Location) : Option String := tree.files.lookup here

def isFile (here : Location) : Bool := (tree.text? here).isSome

/-- A directory is one that is listed, or has one of these, a file or the working directory below it. -/
def isDirectory (here : Location) : Bool :=
  here.isPrefixOf tree.workingDirectory ||
    tree.files.any (fun file => here.isPrefixOf file.1 && here ≠ file.1) ||
    tree.directories.any here.isPrefixOf

/-- Follows names from a place on. No name leads on from a file, not even the empty one. -/
def follow (here : Location) : List String → Except Obstacle Location
  | [] => .ok here
  | name :: rest =>
    if tree.isFile here then .error .notDirectory
    else if name = "" ∨ name = "." then follow here rest
    else if name = ".." then follow here.dropLast rest
    else
      let next := here ++ [name]
      if tree.isFile next || tree.isDirectory next then follow next rest
      else .error .missing

def locate (path : String) : Except Obstacle Location :=
  match pathNames path with
  | [""] => .error .missing
  | "" :: names => tree.follow [] names
  | names => tree.follow tree.workingDirectory names

def read (here : Location) : Except Obstacle String :=
  match tree.text? here with
  | some text => .ok text
  | none => .error (if tree.isDirectory here then .isDirectory else .missing)

def pathOf (here : Location) : String := tree.top ++ join "/" here

def system : FileSystem where
  locate := tree.locate
  files := tree.files.map (·.1)
  read := tree.read
  pathOf := tree.pathOf
  mem_files_of_read := by
    intro here text h
    unfold read at h
    split at h
    · rename_i found
      obtain ⟨l₁, l₂, split, _⟩ := List.lookup_eq_some_iff.mp found
      simp [split]
    · cases h

end FileTree
end OnePass
