import Mathlib.Logic.Relation
import OnePass.Proofs.Library.Invariant

/-!
Files are loaded in the order of their imports. The invariants of loading hold between commands, so each import of
a unit has an earlier place than the unit, and a file that leads back to itself is never added.
-/

namespace OnePass
namespace Library

variable {disk : FileSystem} {lib lib' : Library} {here : Location}

namespace Machine

variable {m m' : Machine}

/-! ### Commands -/

/-- A machine at rest, with whatever outcome. -/
theorem Sound.rest {outcome outcome' : Except Diagnostic (Option Entry)} (h : (done outcome [] lib).Sound disk) :
    (done outcome' [] lib).Sound disk :=
  ⟨h.library, h.orderly, h.fresh, h.frames, trivial, h.distinct, h.used⟩

/-- A unit may be begun that is in no file, or in one that has not been loaded. -/
theorem Sound.start {outcome : Except Diagnostic (Option Entry)} (h : (done outcome [] lib).Sound disk)
    (unit : Pending) (path text : String)
    (hunit : ∀ here, unit.location = some here → disk.read here = .ok text ∧ lib.loaded.lookup here = none) :
    (start unit path text [] lib).Sound disk where
  library := h.library
  orderly := .single unit fun here hlocation => by
    exact FileSystem.isFile_of_read (hunit here hlocation).1
  fresh here hmem := by
    obtain ⟨unit', hunit', hlocation⟩ := List.mem_filterMap.mp hmem
    obtain rfl := List.mem_singleton.mp hunit'
    exact (hunit here hlocation).2
  frames := h.frames
  linked := ⟨fun here hlocation => (hunit here hlocation).1, trivial⟩
  distinct := h.distinct
  used := h.used

end Machine

/-- The commands that leave the search paths as they are. -/
def Command.loads : Command → Bool
  | .addSearchPath _ => false
  | .file _ | .text _ _ => true

namespace Machine

variable {command : Command}

theorem begin_sound {outcome : Except Diagnostic (Option Entry)} (h : (done outcome [] lib).Sound disk)
    (hloads : command.loads = true) : (begin disk lib command).Sound disk := by
  cases command with
  | addSearchPath directory => cases hloads
  | text path text => exact h.start _ path text nofun
  | file path =>
      rw [begin]
      split
      · exact h.rest
      · rename_i here _
        split
        · exact h.rest
        · rename_i hnone
          split
          · exact h.rest
          · rename_i text htext
            refine h.start _ path text fun there hthere => ?_
            cases hthere
            refine ⟨htext, Option.not_isSome_iff_eq_none.mp fun hhas => ?_⟩
            obtain ⟨e, he⟩ := h.library.has_iff.mp hhas
            cases hnone.symm.trans he

theorem library_begin (hloads : command.loads = true) : (begin disk lib command).library = lib := by
  cases command with
  | addSearchPath directory => cases hloads
  | text path text => rfl
  | file path =>
      rw [begin]
      split
      · rfl
      · split
        · rfl
        · split <;> rfl

/-- What a command sets out with and all steps keep is so at its end. -/
theorem after_keeps {I : Machine → Prop} (hstep : ∀ {m m'}, Step disk m m' → I m → I m')
    (h : I (begin disk lib command)) : I (done (lib.after disk command).1 [] (lib.after disk command).2) := by
  obtain ⟨n, hn⟩ := begin_leads disk lib command
  rw [← hn]
  exact run_keeps hstep h n

theorem after_sound {outcome : Except Diagnostic (Option Entry)} (h : (done outcome [] lib).Sound disk)
    (command : Command) (hloads : command.loads = true) :
    (done (lib.after disk command).1 [] (lib.after disk command).2).Sound disk :=
  after_keeps Step.sound (begin_sound h hloads)

theorem after_grows (disk : FileSystem) (lib : Library) (command : Command) (hloads : command.loads = true) :
    lib.Grows (lib.after disk command).2 := by
  have start : lib.Grows (begin disk lib command).library := by
    rw [library_begin hloads]
    exact .of_eq rfl rfl rfl
  exact after_keeps (I := fun m => lib.Grows m.library) (fun next h => h.trans next.grows) start

/-! ### The file that a command asks for -/

/-- The outermost unit is in the file, and a command that ends well gives its entry. -/
structure Aims (goal : Location) (m : Machine) : Prop where
  root : ∀ unit, m.units.getLast? = some unit → unit.location = some goal
  result : ∀ outcome lib, m = done (.ok outcome) [] lib → ∃ e, outcome = some e ∧ lib.entryAt? goal = some e

theorem entryAt?_add {lib : Library} (registry : Registry) {entry : Entry} (h : entry.location = some here) :
    (lib.add registry entry).entryAt? here = some entry := by
  rw [entryAt?, lookup_add, if_pos h, Option.bind_some, add, List.getElem?_concat_length]

theorem Step.aims {goal : Location} (next : Step disk m m') (h : m.Aims goal) : m'.Aims goal := by
  have tail {unit last : Pending} {units : List Pending} (h : units.getLast? = some last) :
      (unit :: units).getLast? = some last := by
    rw [List.getLast?_cons, h]
    rfl
  cases next with
  | begun | passed | returned => exact ⟨h.root, nofun⟩
  | stuck | refused | failed | abandoned => exact ⟨fun unit hunit => h.root unit (tail hunit), nofun⟩
  | fetched => exact ⟨fun unit hunit => h.root unit (by simpa [units] using hunit), nofun⟩
  | finished hrequests program registry =>
      refine ⟨fun unit hunit => h.root unit (tail hunit), fun outcome lib hlib => ?_⟩
      cases hlib
      exact ⟨_, rfl, entryAt?_add registry (h.root _ rfl)⟩

theorem begin_aims {path : String} (hpath : disk.locate path = .ok here) :
    (begin disk lib (.file path)).Aims here := by
  rw [begin, hpath]
  dsimp only
  split
  · rename_i e he
    constructor
    · intro unit hunit
      cases hunit
    · intro outcome lib hlib
      cases hlib
      exact ⟨e, rfl, he⟩
  · split
    · constructor
      · intro unit hunit
        cases hunit
      · intro outcome lib hlib
        cases hlib
    · constructor
      · intro unit hunit
        cases hunit
        rfl
      · intro outcome lib hlib
        cases hlib

/-- A file that a command loads is there at its end. -/
theorem entryAt?_after {path : String} {outcome : Option Entry} (hpath : disk.locate path = .ok here)
    (h : (lib.after disk (.file path)).1 = .ok outcome) :
    ∃ e, outcome = some e ∧ (lib.after disk (.file path)).2.entryAt? here = some e :=
  (after_keeps Step.aims (begin_aims hpath)).result outcome _ (by rw [h])

end Machine

/-! ### The graph of imports -/

section Graph

open Relation (TransGen ReflTransGen)

variable {there : Location} {i : Nat}

theorem Sound.imports_lt (h : lib.Sound disk) (hi : lib.loaded.lookup here = some i)
    (himports : Imports disk lib here there) : ∃ j < i, lib.loaded.lookup there = some j := by
  obtain ⟨e, he, hlocation⟩ := (h.index here i).mp hi
  obtain ⟨tokens, htokens, hearlier⟩ := h.imports i e he
  obtain ⟨text, htext, hmem⟩ := himports
  cases htext.symm.trans (h.text e (List.mem_of_getElem? he) here hlocation)
  obtain ⟨request, hrequest, name, hfound⟩ := exists_request_of_mem_importedBy hmem htokens
  exact hearlier request hrequest name there hfound

/-- All that a file leads to has been loaded before it. -/
theorem Sound.leads_lt (h : lib.Sound disk) (hi : lib.loaded.lookup here = some i)
    (hleads : TransGen (Imports disk lib) here there) : ∃ j < i, lib.loaded.lookup there = some j := by
  induction hleads with
  | single himports => exact h.imports_lt hi himports
  | tail _ himports ih =>
      obtain ⟨j, hj, hlookup⟩ := ih
      obtain ⟨k, hk, hthere⟩ := h.imports_lt hlookup himports
      exact ⟨k, Nat.lt_trans hk hj, hthere⟩

theorem Sound.acyclic (h : lib.Sound disk) (hhas : lib.Has here) : ¬TransGen (Imports disk lib) here here := by
  intro hcycle
  obtain ⟨i, hi⟩ := Option.isSome_iff_exists.mp hhas
  obtain ⟨j, hj, hlookup⟩ := h.leads_lt hi hcycle
  rw [hi] at hlookup
  exact Nat.lt_irrefl _ (Option.some.inj hlookup ▸ hj)

theorem Sound.has_of_leads (h : lib.Sound disk) (hhas : lib.Has here)
    (hleads : ReflTransGen (Imports disk lib) here there) : lib.Has there := by
  obtain rfl | hleads := Relation.reflTransGen_iff_eq_or_transGen.mp hleads
  · exact hhas
  · obtain ⟨i, hi⟩ := Option.isSome_iff_exists.mp hhas
    obtain ⟨j, _, hlookup⟩ := h.leads_lt hi hleads
    exact Option.isSome_iff_exists.mpr ⟨j, hlookup⟩

/-- A file from which a circle can be reached is not loaded. -/
theorem after_circular {outcome : Except Diagnostic (Option Entry)} {path : String}
    (h : (Machine.done outcome [] lib).Sound disk) (hpath : disk.locate path = .ok here)
    (hleads : ReflTransGen (Imports disk lib) here there) (hcycle : TransGen (Imports disk lib) there there) :
    ∃ d, (lib.after disk (.file path)).1 = .error d := by
  have hsound := (Machine.after_sound h (.file path) rfl).library
  rw [← imports_congr (Machine.after_grows disk lib (.file path) rfl).searchPaths] at hleads hcycle
  cases hresult : (lib.after disk (.file path)).1 with
  | error d => exact ⟨d, rfl⟩
  | ok entry =>
      obtain ⟨e, _, he⟩ := Machine.entryAt?_after hpath hresult
      exact absurd hcycle (hsound.acyclic (hsound.has_of_leads (hsound.has_iff.mpr ⟨e, he⟩) hleads))

/-! ### Sessions -/

/-- The library after some commands, any of which may have failed. -/
def session (disk : FileSystem) (searchPaths : List String) (commands : List Command) : Library :=
  commands.foldl (fun lib command => (lib.after disk command).2) { searchPaths }

theorem sound_new (disk : FileSystem) (searchPaths : List String) :
    (Machine.done (.ok none) [] { searchPaths }).Sound disk where
  library := ⟨fun _ _ => ⟨nofun, nofun⟩, nofun, nofun⟩
  orderly := .nil
  fresh := nofun
  frames := nofun
  linked := trivial
  distinct := List.nodup_nil
  used := nofun

theorem foldl_after_sound {commands : List Command} (hloads : ∀ command ∈ commands, command.loads = true)
    {outcome : Except Diagnostic (Option Entry)} (h : (Machine.done outcome [] lib).Sound disk) :
    (Machine.done outcome [] (commands.foldl (fun lib command => (lib.after disk command).2) lib)).Sound disk ∧
      lib.Grows (commands.foldl (fun lib command => (lib.after disk command).2) lib) := by
  induction commands generalizing lib with
  | nil => exact ⟨h, .of_eq rfl rfl rfl⟩
  | cons command commands ih =>
      obtain ⟨hfirst, hrest⟩ := List.forall_mem_cons.mp hloads
      obtain ⟨hsound, hgrows⟩ := ih hrest (Machine.after_sound h command hfirst).rest
      exact ⟨hsound, (Machine.after_grows disk lib command hfirst).trans hgrows⟩

theorem Sound.distinct (h : lib.Sound disk) : (lib.entries.filterMap (·.location)).Nodup := by
  refine List.pairwise_filterMap.mpr (List.pairwise_iff_getElem.mpr fun i j hi hj hlt => ?_)
  intro here hhere there hthere
  rintro rfl
  have place {k : Nat} (hk : k < lib.entries.length) (hlocation : lib.entries[k].location = some here) :
      lib.loaded.lookup here = some k :=
    (h.index here k).mpr ⟨_, List.getElem?_eq_getElem hk, hlocation⟩
  have same := (place hi hhere).symm.trans (place hj hthere)
  exact Nat.ne_of_lt hlt (Option.some.inj same)

theorem after_file_of_entryAt? {path : String} {e : Entry} (hpath : disk.locate path = .ok here)
    (he : lib.entryAt? here = some e) : lib.after disk (.file path) = (.ok (some e), lib) := by
  rw [after, perform, run_map, loadFile, hpath]
  dsimp only
  rw [run_bind, run_get]
  dsimp only
  rw [he]
  rfl

theorem entries_addSearchPath (lib : Library) (directory : String) :
    (lib.addSearchPath directory).entries = lib.entries := by
  unfold addSearchPath
  split <;> rfl

theorem entries_after (disk : FileSystem) (lib : Library) (command : Command) :
    lib.entries <+: (lib.after disk command).2.entries := by
  cases command with
  | addSearchPath directory =>
      change lib.entries <+: (lib.addSearchPath directory).entries
      exact (entries_addSearchPath lib directory).symm ▸ List.prefix_rfl
  | file path => exact (Machine.after_grows disk lib (.file path) rfl).entries
  | text path text => exact (Machine.after_grows disk lib (.text path text) rfl).entries

/-- Whatever files and texts are loaded one after the other, each file is loaded once and behind all that it
imports. -/
theorem session_ordered (disk : FileSystem) (searchPaths : List String) (commands : List Command)
    (hloads : ∀ command ∈ commands, command.loads = true) :
    let lib := session disk searchPaths commands
    lib.searchPaths = searchPaths ∧
    (∀ command, ∃ n, ∀ k ≥ n, Machine.run disk k (Machine.begin disk lib command) =
      .done (lib.after disk command).1 [] (lib.after disk command).2) ∧
    (lib.entries.filterMap (·.location)).Nodup ∧
    (∀ here i, lib.loaded.lookup here = some i ↔ ∃ e, lib.entries[i]? = some e ∧ e.location = some here) ∧
    (lib.entries.map (·.source.id)).Nodup ∧
    (∀ command, lib.entries <+: (lib.after disk command).2.entries) ∧
    (∀ path here, ∀ e ∈ lib.entries, disk.locate path = .ok here → e.location = some here →
      lib.after disk (.file path) = (.ok (some e), lib)) ∧
    (∀ (i : Nat) (e : Entry), lib.entries[i]? = some e → ∃ tokens, e.source.tokens = .ok tokens ∧
      ∀ request ∈ Request.ofTokens tokens, ∀ name here, lib.requested? disk request = some (name, here) →
        ∃ j < i, ∃ e', lib.entries[j]? = some e' ∧ e'.location = some here) ∧
    (∀ e ∈ lib.entries, ∀ here, e.location = some here → ¬TransGen (Imports disk lib) here here) ∧
    ∀ path here there, disk.locate path = .ok here → ReflTransGen (Imports disk lib) here there →
      TransGen (Imports disk lib) there there → ∃ d, (lib.after disk (.file path)).1 = .error d := by
  intro lib
  obtain ⟨hsound, hgrows⟩ := foldl_after_sound hloads (sound_new disk searchPaths)
  have hlib : lib.Sound disk := hsound.library
  refine ⟨hgrows.searchPaths, Machine.begin_rests disk lib, hlib.distinct, hlib.index, hsound.distinct,
    entries_after disk lib, ?_, ?_, ?_, ?_⟩
  · intro path here e he hpath hlocation
    exact after_file_of_entryAt? hpath (hlib.entryAt?_eq_some_iff.mpr ⟨he, hlocation⟩)
  · intro i e he
    obtain ⟨tokens, htokens, himports⟩ := hlib.imports i e he
    refine ⟨tokens, htokens, fun request hrequest name here hfound => ?_⟩
    obtain ⟨j, hj, hlookup⟩ := himports request hrequest name here hfound
    exact ⟨j, hj, (hlib.index here j).mp hlookup⟩
  · intro e he here hlocation
    exact hlib.acyclic (hlib.has_iff.mpr ⟨e, hlib.entryAt?_eq_some_iff.mpr ⟨he, hlocation⟩⟩)
  · intro path here there hpath hleads hcycle
    exact after_circular hsound hpath hleads hcycle

/-- Files of which two lead to each other. -/
def knot : FileSystem :=
  FileTree.system
    { files := [(["a.sr"], "import b::x;"), (["b.sr"], ""), (["c.sr"], "import d::x;"), (["d.sr"], "import c::x;")] }

/-- The files that are no part of the knot are loaded once and in order, and the others are not loaded. -/
theorem session_ordered_knot :
    let commands : List Command := [.file "c.sr", .file "a.sr", .text "t.sr" "import b::y;"]
    let lib := session knot ["."] commands
    (∀ command ∈ commands, command.loads = true) ∧
    lib.entries.map (·.location) = [some ["b.sr"], some ["a.sr"], none] ∧
    (∃ e, lib.after knot (.file "./a.sr") = (.ok (some e), lib)) ∧
    ∃ d, (lib.after knot (.file "c.sr")).1 = .error d := by
  intro commands lib
  have loads : ∀ command ∈ commands, command.loads = true := by decide
  have places : lib.entries.map (·.location) = [some ["b.sr"], some ["a.sr"], none] := by decide +kernel
  obtain ⟨paths, _, _, _, _, _, again, _, _, circular⟩ := session_ordered knot ["."] commands loads
  have graph : Imports knot lib = Imports knot { searchPaths := ["."] } := imports_congr paths
  have imports {here there : Location} (text : String) (hread : knot.read here = .ok text)
      (h : there ∈ importedBy { searchPaths := ["."] } knot text) : Imports knot lib here there := by
    rw [graph]
    exact ⟨text, hread, h⟩
  refine ⟨loads, places, ?_, ?_⟩
  · have hmem : some ["a.sr"] ∈ lib.entries.map (·.location) := by rw [places]; decide
    obtain ⟨e, he, hlocation⟩ := List.mem_map.mp hmem
    exact ⟨e, again "./a.sr" ["a.sr"] e he (by decide +kernel) hlocation⟩
  · refine circular "c.sr" ["c.sr"] ["c.sr"] (by decide +kernel) .refl ?_
    have away : Imports knot lib ["c.sr"] ["d.sr"] := imports _ rfl (by decide +kernel)
    have back : Imports knot lib ["d.sr"] ["c.sr"] := imports _ rfl (by decide +kernel)
    exact .tail (.single away) back

end Graph

end Library
end OnePass
