import Mathlib.Data.List.Dedup
import Mathlib.Data.List.Perm.Subperm
import OnePass.Proofs.Library.Machine

/-!
Loading ends, whatever the files import. No file waits twice at a time, and only the outermost unit can be
in no file, so the stack is never higher than there are files, and one more.
-/

namespace OnePass
namespace Library

/-- The locations of units. -/
def Pending.locations (units : List Pending) : List Location := units.filterMap (·.location)

/-- Units that wait at the same time. -/
structure Orderly (disk : FileSystem) (units : List Pending) : Prop where
  distinct : (Pending.locations units).Nodup
  files : ∀ here ∈ Pending.locations units, disk.isFile here = true
  located : units.length ≤ (Pending.locations units).length + 1

namespace Orderly

variable {disk : FileSystem} {units : List Pending} {name : String} {here : Location}

theorem nil : Orderly disk [] := ⟨List.nodup_nil, nofun, Nat.zero_le _⟩

/-- One unit alone need not be in a file. -/
theorem single (unit : Pending) (h : ∀ here, unit.location = some here → disk.isFile here = true) :
    Orderly disk [unit] := by
  obtain ⟨name, _ | here⟩ := unit
  · exact ⟨List.nodup_nil, nofun, Nat.le_refl _⟩
  · refine ⟨List.nodup_singleton here, fun there hthere => ?_, Nat.le_succ _⟩
    exact h there (congrArg some (List.mem_singleton.mp hthere).symm)

theorem tail (h : Orderly disk units) : Orderly disk units.tail := by
  obtain _ | ⟨⟨name, location⟩, units⟩ := units
  · exact h
  · obtain ⟨distinct, files, located⟩ := h
    cases location with
    | none => exact ⟨distinct, files, Nat.le_trans (Nat.le_succ _) located⟩
    | some here =>
        exact ⟨distinct.of_cons, fun there hthere => files there (List.mem_cons_of_mem _ hthere),
          Nat.le_of_succ_le_succ located⟩

theorem notMem_locations (hfresh : units.any (·.is name here) = false) : here ∉ Pending.locations units := by
  intro hmem
  obtain ⟨unit, hunit, hlocation⟩ := List.mem_filterMap.mp hmem
  have := List.any_eq_false.mp hfresh unit hunit
  simp [Pending.is, hlocation] at this

/-- A file that no unit waits in may wait for the others. -/
theorem cons (h : Orderly disk units) (hfile : disk.isFile here = true)
    (hfresh : units.any (·.is name here) = false) : Orderly disk (⟨name, some here⟩ :: units) where
  distinct := List.nodup_cons.mpr ⟨notMem_locations hfresh, h.distinct⟩
  files there hthere := by
    rcases List.mem_cons.mp hthere with rfl | hthere
    · exact hfile
    · exact h.files there hthere
  located := Nat.succ_le_succ h.located

theorem length_le (h : Orderly disk units) : units.length ≤ disk.files.dedup.length + 1 := by
  have hsub : Pending.locations units ⊆ disk.files.dedup := fun here hmem =>
    List.mem_dedup.mpr (FileSystem.isFile_iff.mp (h.files here hmem))
  have hle := (List.subperm_of_subset h.distinct hsub).length_le
  exact Nat.le_trans h.located (Nat.succ_le_succ hle)

end Orderly

namespace Machine

variable {disk : FileSystem} {lib : Library} {m m' : Machine}

/-- The units that wait, and the one that is about to wait for its imports. -/
def units : Machine → List Pending
  | .start unit _ _ waiting _ => unit :: waiting.map Frame.unit
  | .resume frame waiting _ => (frame :: waiting).map Frame.unit
  | .done _ waiting _ => waiting.map Frame.unit

theorem Step.orderly (next : Step disk m m') (h : Orderly disk m.units) : Orderly disk m'.units := by
  cases next with
  | stuck | refused | failed | finished => exact h.tail
  | begun | passed | returned => exact h
  | fetched hrequests hfound hfresh => exact h.cons (isFile_of_requested? hfound) hfresh
  | abandoned => exact h.tail

theorem begin_orderly (disk : FileSystem) (lib : Library) (command : Command) :
    Orderly disk (begin disk lib command).units := by
  cases command with
  | addSearchPath directory => exact .nil
  | text path text => exact .single _ nofun
  | file path =>
      rw [begin]
      split
      · exact .nil
      · rename_i here _
        split
        · exact .nil
        · split
          · exact .nil
          · rename_i text htext
            refine .single _ fun there hthere => ?_
            cases hthere
            exact FileSystem.isFile_of_read htext

theorem pending_orderly (h : Orderly disk m.units) : Orderly disk m.pending := by
  cases m with
  | start => exact h.tail
  | resume | done => exact h

/-- A command comes to its end, with the units that wait for one another in different files all the while. -/
theorem begin_ends (disk : FileSystem) (lib : Library) (command : Command) :
    (∃ n, ∀ k ≥ n, run disk k (begin disk lib command) =
      .done (lib.after disk command).1 [] (lib.after disk command).2) ∧
    ∀ k, (Pending.locations (run disk k (begin disk lib command)).pending).Nodup ∧
      (run disk k (begin disk lib command)).pending.length ≤ disk.files.dedup.length + 1 := by
  refine ⟨begin_rests disk lib command, fun k => ?_⟩
  have h := pending_orderly (run_keeps Step.orderly (begin_orderly disk lib command) k)
  exact ⟨h.distinct, h.length_le⟩

end Machine

end Library
end OnePass
