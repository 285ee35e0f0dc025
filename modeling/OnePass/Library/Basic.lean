import OnePass.Grammar.Unit
import OnePass.Library.FileTree
import OnePass.Library.Request

/-!
A library of units that are read against one registry. A unit's imports are looked up on the search
paths and loaded before it, each file once. A file that is asked for while it is itself being loaded
closes a circle and is refused, so no file waits for its imports twice at a time, and loading ends.
-/

namespace OnePass

structure Library.Entry where
  source : Source
  program : Program
  /-- Absent for a text that is in no file. -/
  location : Option Location

structure Library where
  registry : Registry := .empty
  searchPaths : List String := ["."]
  /-- In the order in which they were finished. -/
  entries : List Library.Entry := []
  loaded : List (Location × Nat) := []
  nextFile : Nat := 0

namespace Library

/-- Loading keeps what it has done when it fails. -/
abbrev Loading := ExceptT Diagnostic (StateM Library)

/-- A unit whose imports are being loaded. -/
structure Pending where
  name : String
  location : Option Location
deriving DecidableEq

/-- A module's file has the module's last name and this after it. -/
def fileSuffix : String := ".sr"

/-! ### Finding files -/

def entryAt? (lib : Library) (here : Location) : Option Entry :=
  (lib.loaded.lookup here).bind (lib.entries[·]?)

/-- The path of module `a::b` below a directory: `a/b.sr`. -/
def modulePath (segments : List String) (directory : String) : String :=
  underDirectory directory (join "/" segments ++ fileSuffix)

/-- The file of a module is the one below the first search path that has it. -/
def moduleFile? (lib : Library) (disk : FileSystem) (segments : List String) : Option Location :=
  lib.searchPaths.findSome? fun directory => disk.fileAt? (modulePath segments directory)

/-- The name of a requested module and its file. A module without a file is no fault: its names may
come from elsewhere. -/
def requested? (lib : Library) (disk : FileSystem) (request : Request) : Option (String × Location) :=
  request.candidates.findSome? fun segments =>
    (lib.moduleFile? disk segments).map fun here => (Name.written segments, here)

theorem isFile_of_requested? {lib : Library} {disk : FileSystem} {request : Request} {name : String}
    {here : Location} (h : lib.requested? disk request = some (name, here)) :
    disk.isFile here = true := by
  obtain ⟨segments, _, candidate⟩ := List.exists_of_findSome?_eq_some h
  obtain ⟨there, file, same⟩ := Option.map_eq_some_iff.mp candidate
  obtain ⟨directory, _, found⟩ := List.exists_of_findSome?_eq_some file
  cases same
  exact FileSystem.isFile_of_fileAt? found

/-! ### Units that wait -/

/-- Whether a module is pending. A file is known by its location; a text in no file can only be known
by its name. -/
def Pending.is (unit : Pending) (name : String) (here : Location) : Bool :=
  match unit.location with
  | some there => there == here
  | none => unit.name == name

def idle (disk : FileSystem) (chain : List Pending) : Nat :=
  disk.files.countP fun here => chain.all (·.location ≠ some here)

private theorem countP_lt_countP {α : Type} {p q : α → Bool} {l : List α}
    (imp : ∀ x ∈ l, p x = true → q x = true) {a : α} (mem : a ∈ l) (hq : q a = true)
    (hp : p a = false) : l.countP p < l.countP q := by
  induction l with
  | nil => simp at mem
  | cons b l ih =>
    have rest := List.countP_mono_left fun x hx => imp x (List.mem_cons_of_mem _ hx)
    have head := imp b List.mem_cons_self
    rcases List.mem_cons.mp mem with rfl | mem
    · simp only [List.countP_cons, hp, hq]
      simp
      omega
    · have rest := ih (fun x hx => imp x (List.mem_cons_of_mem _ hx)) mem
      simp only [List.countP_cons]
      grind

theorem idle_cons_lt {disk : FileSystem} {chain : List Pending} {name : String} {here : Location}
    (file : disk.isFile here = true) (fresh : chain.any (·.is name here) = false) :
    idle disk (⟨name, some here⟩ :: chain) < idle disk chain := by
  apply countP_lt_countP _ (FileSystem.isFile_iff.mp file)
  · simp only [List.any_eq_false, List.all_eq_true] at fresh ⊢
    intro unit mem
    have := fresh unit mem
    simp only [Pending.is] at this
    grind
  · simp
  · simp +contextual

/-! ### Loading -/

def newSource (path text : String) : Loading Source :=
  modifyGet fun lib => (⟨lib.nextFile, path, text⟩, { lib with nextFile := lib.nextFile + 1 })

def finish (location : Option Location) (source : Source) (tokens : List Token) : Loading Entry := do
  let (result, registry) := (← get).registry.readTokens source tokens
  modify fun lib => { lib with registry }
  let entry : Entry := { source, program := ← result, location }
  modify fun lib => { lib with
    entries := lib.entries ++ [entry]
    loaded := (location.map (·, lib.entries.length)).toList ++ lib.loaded }
  return entry

def textAt (disk : FileSystem) (path : String) (here : Location) : Loading String :=
  match disk.read here with
  | .ok text => return text
  | .error obstacle => throw { fault := .unreadable path obstacle }

/-- How a unit is loaded while others wait for it, as long as less than `n` files are idle. -/
abbrev Below (disk : FileSystem) (n : Nat) :=
  (unit : Pending) → (chain : List Pending) → idle disk (unit :: chain) < n →
    (path text : String) → Loading Entry

/-- Loads what an import asks for, on behalf of the first of the units that wait. -/
def satisfy {disk : FileSystem} {n : Nat} (below : Below disk n) (chain : List Pending)
    (bound : idle disk chain ≤ n) (source : Source) (request : Request) : Loading PUnit := do
  match found : (← get).requested? disk request with
  | none => return
  | some (name, here) =>
    if fresh : chain.any (·.is name here) = false then
      if ((← get).loaded.lookup here).isSome then return
      let path := disk.pathOf here
      let text ← textAt disk path here
      have less := idle_cons_lt (isFile_of_requested? found) fresh
      let _ ← below ⟨name, some here⟩ chain (Nat.lt_of_lt_of_le less bound) path text
    else
      let names := chain.reverse.map (·.name) ++ [name]
      throw (.located (.circularImport names) source request.span)

def loadUnit {disk : FileSystem} {n : Nat} (below : Below disk n) (unit : Pending)
    (chain : List Pending) (bound : idle disk (unit :: chain) ≤ n) (path text : String) :
    Loading Entry := do
  let source ← newSource path text
  let tokens ← source.tokens
  (Request.ofTokens tokens).forM (satisfy below (unit :: chain) bound source)
  finish unit.location source tokens

def below (disk : FileSystem) : (n : Nat) → Below disk n
  | 0, _, _, h, _, _ => absurd h (Nat.not_lt_zero _)
  | n + 1, unit, chain, h, path, text =>
    loadUnit (below disk n) unit chain (Nat.le_of_lt_succ h) path text

def load (disk : FileSystem) (unit : Pending) (path text : String) : Loading Entry :=
  below disk (idle disk [unit] + 1) unit [] (Nat.lt_succ_self _) path text

/-- Loads the file that a path leads to, unless it is there already. -/
def loadFile (disk : FileSystem) (path : String) : Loading Entry := do
  match disk.locate path with
  | .error obstacle => throw { fault := .unreadable path obstacle }
  | .ok here =>
    match (← get).entryAt? here with
    | some entry => return entry
    | none =>
      let text ← textAt disk path here
      load disk ⟨stem path, some here⟩ path text

def loadText (disk : FileSystem) (path text : String) : Loading Entry :=
  load disk ⟨stem path, none⟩ path text

/-! ### Working with a library -/

inductive Command where
  | addSearchPath (directory : String)
  | file (path : String)
  | text (path text : String)

/-- Adds a path to search unless it is there already. -/
def addSearchPath (lib : Library) (directory : String) : Library :=
  if lib.searchPaths.any fun path => pathComponents path = pathComponents directory then lib
  else { lib with searchPaths := lib.searchPaths ++ [directory] }

/-- Carries out a command. Only loading has a result. -/
def perform (disk : FileSystem) : Command → Loading (Option Entry)
  | .addSearchPath directory => do
    modify fun lib => lib.addSearchPath directory
    return none
  | .file path => some <$> loadFile disk path
  | .text path text => some <$> loadText disk path text

def after (lib : Library) (disk : FileSystem) (command : Command) :
    Except Diagnostic (Option Entry) × Library :=
  (perform disk command).run.run lib

end Library
end OnePass
