import OnePass.Library.Basic
import OnePass.Listing.Program
import OnePass.Listing.Registry

/-!
The command line: `check`, `symbols`, `ast` and `version`. A run is a function of the files and the
arguments, so all that is left outside is reading files and printing. The first diagnostic ends a run.
-/

namespace OnePass
namespace CommandLine

inductive Task where
  | check (files : List String)
  | symbols (files : List String)
  | ast (file : String)
  | version

structure Invocation where
  task : Task
  /-- Diagnostics are written as JSON. -/
  json : Bool
  /-- Directories to look for imports in, after the working directory. -/
  includes : List String

structure Outcome where
  status : Nat
  stdout : String
  stderr : String

/-! ### Reading the arguments -/

inductive Argument where
  | json
  | include (directory : String)
  | word (text : String)

namespace Argument

def word? : Argument → Option String
  | .word text => some text
  | _ => none

def directory? : Argument → Option String
  | .include directory => some directory
  | _ => none

def isJson : Argument → Bool
  | .json => true
  | _ => false

end Argument

def after? (start text : String) : Option String :=
  if start.toList.isPrefixOf text.toList then
    some (String.ofList (text.toList.drop start.toList.length))
  else none

/-- An argument that stands for itself. A directory may be attached to its option; a dash alone is a
word. -/
def argument? (text : String) : Option Argument :=
  let attached := ["--include=", "-I=", "-I"].findSome? (after? · text)
  match attached with
  | some "" => none
  | some directory => some (.include directory)
  | none => if text ≠ "-" ∧ text.toList.head? = some '-' then none else some (.word text)

/-- Tells arguments apart. Behind `--` all are words. -/
def arguments? : List String → Option (List Argument)
  | [] => some []
  | "--" :: rest => some (rest.map .word)
  | "--json" :: rest => (arguments? rest).map (.json :: ·)
  | "-I" :: directory :: rest | "--include" :: directory :: rest =>
    (arguments? rest).map (.include directory :: ·)
  | text :: rest => do return (← argument? text) :: (← arguments? rest)

def task? : String → List String → Option Task
  | "check", file :: files => some (.check (file :: files))
  | "symbols", file :: files => some (.symbols (file :: files))
  | "ast", [file] => some (.ast file)
  | "version", [] => some .version
  | _, _ => none

/-- The first word is the task. Options may stand before and behind it; directories behind it take the
place of those before it. -/
def invocation? (args : List String) : Option Invocation := do
  let all ← arguments? args
  let before := all.takeWhile (·.word?.isNone)
  let behind := all.dropWhile (·.word?.isNone)
  let word :: files := behind.filterMap (·.word?) | none
  let directories := behind.filterMap (·.directory?)
  return {
    task := ← task? word files
    json := all.any (·.isJson)
    includes := if directories.isEmpty then before.filterMap (·.directory?) else directories }

/-! ### Running -/

def library (includes : List String) : Library :=
  includes.foldl Library.addSearchPath {}

def loadAll (disk : FileSystem) : List String → Library.Loading (List Library.Entry)
  | [] => return []
  | file :: files => return (← Library.loadFile disk file) :: (← loadAll disk files)

def versionText : String := "stridec 0.1.0\nStride Compiler\nLicense: Apache-2.0\n"

def failure (json : Bool) (d : Diagnostic) : Outcome where
  status := 1
  stdout := ""
  stderr := if json then d.report.json.text "" ++ "\n" else d.render

def success (stdout : String) : Outcome := { status := 0, stdout, stderr := "" }

def Invocation.withFiles (i : Invocation) (disk : FileSystem) (files : List String)
    (write : List Library.Entry → Library → String) : Outcome :=
  match (loadAll disk files).run.run (library i.includes) with
  | (.ok entries, lib) => success (write entries lib)
  | (.error d, _) => failure i.json d

def Invocation.run (i : Invocation) (disk : FileSystem) : Outcome :=
  match i.task with
  | .check files => i.withFiles disk files fun _ _ => "No errors found\n"
  | .symbols files => i.withFiles disk files fun _ lib => lib.registry.json.text "" ++ "\n"
  | .ast file => i.withFiles disk [file] fun entries _ =>
      String.join (entries.map fun entry => entry.program.outline.text "" ++ "\n")
  | .version => success versionText

def usage : String :=
  "usage: stridec [--json] [-I DIR]... (check FILE... | symbols FILE... | ast FILE | version)\n"

def run (disk : FileSystem) (args : List String) : Outcome :=
  match invocation? args with
  | some i => i.run disk
  | none => { status := 2, stdout := "", stderr := usage }

end CommandLine
end OnePass
