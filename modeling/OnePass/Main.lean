import OnePass.CommandLine

/-!
The program. It collects the part of the disk that a run can come across; what the run does with it is
`CommandLine.run`.
-/

namespace OnePass
namespace Disk

def text? (path : String) : IO (Option String) :=
  try some <$> IO.FS.readFile path catch _ => return none

/-- Where a path leads, and the text there. What has none is taken for a directory. -/
def look (path : String) : IO (Option (Location × Option String)) :=
  try
    let real ← IO.FS.realPath path
    return some ((pathNames s!"{real}").filter (· ≠ ""), ← text? path)
  catch _ => return none

/-- A path and those of the directories that it goes through. -/
def ways (path : String) : List String :=
  let names := pathNames path
  (List.range names.length).map fun n => join "/" (names.take (n + 1))

/-- The paths under which the imports of a text may be found. -/
def importPaths (searchPaths : List String) (text : String) : List String :=
  match (Source.mk 0 "" text).tokens with
  | .ok tokens => (Library.Request.ofTokens tokens).flatMap fun request =>
      request.candidates.flatMap fun segments =>
        searchPaths.map (Library.modulePath segments)
  | .error _ => []

/-- Collects what is at some paths, and at those that imports lead to. -/
partial def collect (searchPaths : List String) (tree : FileTree) : List String → IO FileTree
  | [] => return tree
  | path :: rest => do
    match ← look path with
    | none => collect searchPaths tree rest
    | some (here, none) =>
      collect searchPaths { tree with directories := here :: tree.directories } rest
    | some (here, some text) =>
      if tree.isFile here then collect searchPaths tree rest
      else
        let tree := { tree with files := (here, text) :: tree.files }
        collect searchPaths tree ((importPaths searchPaths text).flatMap ways ++ rest)

end Disk

open CommandLine in
def CommandLine.Invocation.files (i : Invocation) : List String :=
  match i.task with
  | .check files | .symbols files => files
  | .ast file => [file]
  | .version => []

end OnePass

open OnePass in
def main (args : List String) : IO UInt32 := do
  let paths := match CommandLine.invocation? args with
    | some i => ("." :: i.includes, i.files)
    | none => ([], [])
  let here := ((← Disk.look ".").map (·.1)).getD []
  let tree ← Disk.collect paths.1 { workingDirectory := here, files := [] } (paths.2.flatMap Disk.ways)
  let outcome := CommandLine.run tree.system args
  IO.print outcome.stdout
  IO.eprint outcome.stderr
  return outcome.status.toUInt32
