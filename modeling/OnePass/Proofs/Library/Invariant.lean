import OnePass.Proofs.Library.Requests
import OnePass.Proofs.Library.Termination

/-!
What the steps of loading keep. The files that wait have not been loaded and are different from one another, and
the imports that a unit has behind it have been loaded. So a unit is added once, behind all that it imports.
-/

namespace OnePass
namespace Library

variable {disk : FileSystem} {lib lib' : Library} {here : Location}

/-! ### What a library holds -/

/-- The file has been loaded. -/
def Has (lib : Library) (here : Location) : Prop := (lib.loaded.lookup here).isSome = true

/-- All files that are asked for have been loaded. -/
def Meets (disk : FileSystem) (lib : Library) (requests : List Request) : Prop :=
  ∀ request ∈ requests, ∀ name here, lib.requested? disk request = some (name, here) → lib.Has here

theorem lookup_add (registry : Registry) (entry : Entry) :
    (lib.add registry entry).loaded.lookup here =
      if entry.location = some here then some lib.entries.length else lib.loaded.lookup here := by
  obtain ⟨source, program, _ | there⟩ := entry
  · rfl
  · rw [add]
    by_cases h : there = here
    · simp [h]
    · simp [h, List.lookup_cons, beq_eq_false_iff_ne.mpr (Ne.symm h)]

theorem has_add (registry : Registry) {entry : Entry} (h : entry.location = some here) :
    (lib.add registry entry).Has here := by
  rw [Has, lookup_add, if_pos h, Option.isSome_some]

/-- What loading leaves as it is. -/
structure Grows (lib lib' : Library) : Prop where
  searchPaths : lib'.searchPaths = lib.searchPaths
  entries : lib.entries <+: lib'.entries
  has : ∀ here, lib.Has here → lib'.Has here

namespace Grows

theorem of_eq (hpaths : lib'.searchPaths = lib.searchPaths) (hentries : lib'.entries = lib.entries)
    (hloaded : lib'.loaded = lib.loaded) : lib.Grows lib' :=
  ⟨hpaths, hentries ▸ List.prefix_rfl, fun here h => by rw [Has, hloaded]; exact h⟩

theorem trans {lib'' : Library} (h : lib.Grows lib') (h' : lib'.Grows lib'') : lib.Grows lib'' :=
  ⟨h'.searchPaths.trans h.searchPaths, h.entries.trans h'.entries, fun here hh => h'.has here (h.has here hh)⟩

theorem add (registry : Registry) (entry : Entry) : lib.Grows (lib.add registry entry) := by
  refine ⟨rfl, List.prefix_append _ _, fun here h => ?_⟩
  rw [Has, lookup_add]
  split
  · rfl
  · exact h

theorem requested? (h : lib.Grows lib') : lib'.requested? disk = lib.requested? disk :=
  requested?_congr h.searchPaths

theorem meets (h : lib.Grows lib') {requests : List Request} (hmeets : lib.Meets disk requests) :
    lib'.Meets disk requests := by
  intro request hrequest name here hfound
  rw [h.requested?] at hfound
  exact h.has here (hmeets request hrequest name here hfound)

end Grows

/-- A library as loading leaves it. -/
structure Sound (disk : FileSystem) (lib : Library) : Prop where
  index : ∀ here i, lib.loaded.lookup here = some i ↔ ∃ e, lib.entries[i]? = some e ∧ e.location = some here
  text : ∀ e ∈ lib.entries, ∀ here, e.location = some here → disk.read here = .ok e.source.text
  imports : ∀ i e, lib.entries[i]? = some e → ∃ tokens, e.source.tokens = .ok tokens ∧
    ∀ request ∈ Request.ofTokens tokens, ∀ name here, lib.requested? disk request = some (name, here) →
      ∃ j < i, lib.loaded.lookup here = some j

namespace Sound

theorem lt_length (h : lib.Sound disk) {i : Nat} (hi : lib.loaded.lookup here = some i) :
    i < lib.entries.length := by
  obtain ⟨e, he, _⟩ := (h.index here i).mp hi
  exact (List.getElem?_eq_some_iff.mp he).1

theorem entryAt?_eq_some_iff (h : lib.Sound disk) {e : Entry} :
    lib.entryAt? here = some e ↔ e ∈ lib.entries ∧ e.location = some here := by
  rw [entryAt?, Option.bind_eq_some_iff]
  constructor
  · rintro ⟨i, hi, he⟩
    obtain ⟨e', he', hlocation⟩ := (h.index here i).mp hi
    cases he.symm.trans he'
    exact ⟨List.mem_of_getElem? he, hlocation⟩
  · rintro ⟨hmem, hlocation⟩
    obtain ⟨i, hi⟩ := List.getElem?_of_mem hmem
    exact ⟨i, (h.index here i).mpr ⟨e, hi, hlocation⟩, hi⟩

theorem has_iff (h : lib.Sound disk) : lib.Has here ↔ ∃ e, lib.entryAt? here = some e := by
  constructor
  · intro hhas
    obtain ⟨i, hi⟩ := Option.isSome_iff_exists.mp hhas
    obtain ⟨e, he, _⟩ := (h.index here i).mp hi
    exact ⟨e, by rw [entryAt?, hi]; exact he⟩
  · rintro ⟨e, he⟩
    obtain ⟨i, hi, _⟩ := Option.bind_eq_some_iff.mp he
    rw [Has, hi, Option.isSome_some]

/-- A unit is added whose imports have all been loaded and whose file has not. -/
theorem add (h : lib.Sound disk) {entry : Entry} {tokens : List Token} (registry : Registry)
    (hfresh : ∀ here, entry.location = some here → lib.loaded.lookup here = none)
    (htext : ∀ here, entry.location = some here → disk.read here = .ok entry.source.text)
    (htokens : entry.source.tokens = .ok tokens) (hmeets : lib.Meets disk (Request.ofTokens tokens)) :
    (lib.add registry entry).Sound disk := by
  have kept {here : Location} {i : Nat} (hi : lib.loaded.lookup here = some i) :
      (lib.add registry entry).loaded.lookup here = some i := by
    rw [lookup_add, if_neg, hi]
    intro hlocation
    cases hi.symm.trans (hfresh here hlocation)
  have place (i : Nat) (e : Entry) : (lib.add registry entry).entries[i]? = some e ↔
      lib.entries[i]? = some e ∨ i = lib.entries.length ∧ e = entry := by
    rw [Library.add]
    grind
  refine ⟨fun here i => ⟨fun hi => ?_, ?_⟩, fun e he here hlocation => ?_, fun i e he => ?_⟩
  · rw [lookup_add] at hi
    split at hi
    · rename_i hlocation
      exact ⟨entry, (place i entry).mpr (.inr ⟨(Option.some.inj hi).symm, rfl⟩), hlocation⟩
    · obtain ⟨e, he, hlocation⟩ := (h.index here i).mp hi
      exact ⟨e, (place i e).mpr (.inl he), hlocation⟩
  · rintro ⟨e, he, hlocation⟩
    obtain he | ⟨rfl, rfl⟩ := (place i e).mp he
    · exact kept ((h.index here i).mpr ⟨e, he, hlocation⟩)
    · rw [lookup_add, if_pos hlocation]
  · obtain he | rfl := List.mem_append.mp he |>.imp_right List.mem_singleton.mp
    · exact h.text e he here hlocation
    · exact htext here hlocation
  · obtain he | ⟨rfl, rfl⟩ := (place i e).mp he
    · obtain ⟨ts, hts, himports⟩ := h.imports i e he
      refine ⟨ts, hts, fun request hrequest name here hfound => ?_⟩
      obtain ⟨j, hj, hlookup⟩ := himports request hrequest name here hfound
      exact ⟨j, hj, kept hlookup⟩
    · refine ⟨tokens, htokens, fun request hrequest name here hfound => ?_⟩
      obtain ⟨j, hj⟩ := Option.isSome_iff_exists.mp (hmeets request hrequest name here hfound)
      exact ⟨j, h.lt_length hj, kept hj⟩

end Sound

/-! ### Units that wait -/

/-- A unit whose first imports have been loaded. -/
structure Frame.Sound (disk : FileSystem) (lib : Library) (frame : Frame) : Prop where
  tokens : frame.source.tokens = .ok frame.tokens
  text : ∀ here, frame.unit.location = some here → disk.read here = .ok frame.source.text
  seen : ∃ before, Request.ofTokens frame.tokens = before ++ frame.requests ∧ lib.Meets disk before

/-- The import that a unit waits for is the one that is being loaded. -/
def Frame.Awaits (disk : FileSystem) (lib : Library) (frame : Frame) (unit : Pending) : Prop :=
  ∃ request requests here, frame.requests = request :: requests ∧
    lib.requested? disk request = some (unit.name, here) ∧ unit.location = some here

/-- Each unit waits for the one before it, and the first for `unit`. -/
def Chained (disk : FileSystem) (lib : Library) : Pending → List Frame → Prop
  | _, [] => True
  | unit, frame :: waiting => frame.Awaits disk lib unit ∧ Chained disk lib frame.unit waiting

theorem Frame.Sound.mono {frame : Frame} (h : frame.Sound disk lib) (hgrows : lib.Grows lib') :
    frame.Sound disk lib' := by
  obtain ⟨before, hbefore, hmeets⟩ := h.seen
  exact ⟨h.tokens, h.text, before, hbefore, hgrows.meets hmeets⟩

theorem Frame.Sound.next {frame : Frame} (h : frame.Sound disk lib)
    (hmeets : lib.Meets disk (frame.requests.take 1)) :
    frame.next.Sound disk lib := by
  obtain ⟨before, hbefore, hseen⟩ := h.seen
  refine ⟨h.tokens, h.text, before ++ frame.requests.take 1, ?_, fun request hrequest => ?_⟩
  · rw [Frame.next, hbefore, List.append_assoc, ← List.drop_one, List.take_append_drop]
  · obtain hrequest | hrequest := List.mem_append.mp hrequest
    · exact hseen request hrequest
    · exact hmeets request hrequest

theorem Chained.mono {unit : Pending} {waiting : List Frame} (h : Chained disk lib unit waiting)
    (hgrows : lib.Grows lib') : Chained disk lib' unit waiting := by
  induction waiting generalizing unit with
  | nil => trivial
  | cons frame waiting ih =>
      obtain ⟨⟨request, requests, here, hrequests, hfound, hlocation⟩, hrest⟩ := h
      refine ⟨⟨request, requests, here, hrequests, ?_, hlocation⟩, ih hrest⟩
      rw [hgrows.requested?]
      exact hfound

namespace Machine

variable {m m' : Machine}

def Linked (disk : FileSystem) : Machine → Prop
  | .start unit _ text waiting lib =>
    (∀ here, unit.location = some here → disk.read here = .ok text) ∧ Chained disk lib unit waiting
  | .resume frame waiting lib => Chained disk lib frame.unit waiting
  | .done _ [] _ => True
  | .done outcome (frame :: waiting) lib =>
    Chained disk lib frame.unit waiting ∧
      ∀ entry, outcome = .ok entry → lib.Meets disk (frame.requests.take 1)

/-- The numbers of the files that wait and of those that have been read. -/
def numbers (m : Machine) : List Nat :=
  m.stack.map (·.source.id) ++ m.library.entries.map (·.source.id)

/-- A machine as its steps leave it. -/
structure Sound (disk : FileSystem) (m : Machine) : Prop where
  library : m.library.Sound disk
  orderly : Orderly disk m.units
  fresh : ∀ here ∈ Pending.locations m.units, m.library.loaded.lookup here = none
  frames : ∀ frame ∈ m.stack, frame.Sound disk m.library
  linked : m.Linked disk
  distinct : m.numbers.Nodup
  used : ∀ number ∈ m.numbers, number < m.library.nextFile

theorem Step.grows (next : Step disk m m') : m.library.Grows m'.library := by
  cases next with
  | stuck | begun | passed | refused | fetched | failed | returned | abandoned => exact .of_eq rfl rfl rfl
  | finished _ program registry => exact .add registry _

theorem Step.numbers (next : Step disk m m') (hdistinct : m.numbers.Nodup)
    (hused : ∀ number ∈ m.numbers, number < m.library.nextFile) :
    m'.numbers.Nodup ∧ ∀ number ∈ m'.numbers, number < m'.library.nextFile := by
  cases next with
  | passed | fetched | returned => exact ⟨hdistinct, hused⟩
  | refused | failed | abandoned =>
      exact ⟨hdistinct.of_cons, fun number hnumber => hused number (List.mem_cons_of_mem _ hnumber)⟩
  | stuck => exact ⟨hdistinct, fun number hnumber => Nat.lt_succ_of_lt (hused number hnumber)⟩
  | begun =>
      refine ⟨List.nodup_cons.mpr ⟨fun hmem => Nat.lt_irrefl _ (hused _ hmem), hdistinct⟩, fun number hnumber => ?_⟩
      obtain rfl | hnumber := List.mem_cons.mp hnumber
      · exact Nat.lt_succ_self _
      · exact Nat.lt_succ_of_lt (hused number hnumber)
  | finished hrequests program registry =>
      -- the number only moves from the stack to the entries
      rename_i frame waiting lib
      have entries : (lib.add registry (frame.entry program)).entries.map (·.source.id) =
          lib.entries.map (·.source.id) ++ [frame.source.id] := List.map_append
      have moved : (waiting.map (·.source.id) ++ (lib.add registry (frame.entry program)).entries.map
          (·.source.id)).Perm (resume frame waiting lib).numbers := by
        rw [entries, ← List.append_assoc]
        exact List.perm_append_singleton _ _
      exact ⟨moved.nodup_iff.mpr hdistinct, fun number hnumber => hused number (moved.mem_iff.mp hnumber)⟩

/-- The file of a unit that is read has been loaded then, and no other has been since. -/
theorem Step.fresh (next : Step disk m m') (horderly : Orderly disk m.units)
    (hfresh : ∀ here ∈ Pending.locations m.units, m.library.loaded.lookup here = none) :
    ∀ here ∈ Pending.locations m'.units, m'.library.loaded.lookup here = none := by
  have tail {unit : Pending} {units : List Pending} {here : Location} (h : here ∈ Pending.locations units) :
      here ∈ Pending.locations (unit :: units) :=
    (List.sublist_cons_self unit units).filterMap _ |>.mem h
  cases next with
  | begun | passed | returned => exact hfresh
  | stuck | refused | failed | abandoned => exact fun here hmem => hfresh here (tail hmem)
  | fetched hrequests hfound hfree hloaded htext =>
      intro here hmem
      obtain rfl | hmem := List.mem_cons.mp hmem
      · exact hloaded
      · exact hfresh here hmem
  | finished hrequests program registry =>
      intro here hmem
      rw [library, lookup_add, if_neg]
      · exact hfresh here (tail hmem)
      · intro hlocation
        have hdistinct := horderly.distinct
        rw [units, List.map_cons, Pending.locations, List.filterMap_cons_some (by exact hlocation)] at hdistinct
        exact (List.nodup_cons.mp hdistinct).1 hmem

theorem Step.frames (next : Step disk m m') (hlinked : m.Linked disk)
    (hframes : ∀ frame ∈ m.stack, frame.Sound disk m.library) :
    ∀ frame ∈ m'.stack, frame.Sound disk m'.library := by
  have mono {frame : Frame} (h : frame ∈ m.stack) : frame.Sound disk m'.library := (hframes frame h).mono next.grows
  cases next with
  | stuck | fetched => exact fun frame hframe => mono hframe
  | refused | failed | finished | abandoned => exact fun frame hframe => mono (List.mem_cons_of_mem _ hframe)
  | begun htokens =>
      refine List.forall_mem_cons.mpr ⟨⟨htokens, hlinked.1, [], rfl, nofun⟩, fun frame hframe => mono hframe⟩
  | passed hrequests hloaded =>
      refine List.forall_mem_cons.mpr ⟨?_, fun frame hframe => mono (List.mem_cons_of_mem _ hframe)⟩
      apply (mono List.mem_cons_self).next
      rw [hrequests]
      exact List.forall_mem_singleton.mpr hloaded
  | returned =>
      refine List.forall_mem_cons.mpr ⟨?_, fun frame hframe => mono (List.mem_cons_of_mem _ hframe)⟩
      apply (mono List.mem_cons_self).next
      exact hlinked.2 _ rfl

/-- An error goes down the stack. -/
theorem linked_error {unit : Pending} {waiting : List Frame} (h : Chained disk lib unit waiting)
    (hgrows : lib.Grows lib') (d : Diagnostic) : (done (.error d) waiting lib').Linked disk := by
  cases waiting with
  | nil => trivial
  | cons frame waiting => exact ⟨h.2.mono hgrows, nofun⟩

theorem Step.linked (next : Step disk m m') (hlinked : m.Linked disk) : m'.Linked disk := by
  have hgrows := next.grows
  cases next with
  | stuck d => exact linked_error hlinked.2 hgrows d
  | begun => exact hlinked.2.mono hgrows
  | passed => exact hlinked
  | refused d => exact linked_error hlinked hgrows d
  | fetched hrequests hfound hfree hloaded htext =>
      refine ⟨fun here hlocation => ?_, ⟨_, _, _, hrequests, hfound, rfl⟩, hlinked⟩
      cases hlocation
      exact htext
  | failed d => exact linked_error hlinked hgrows d
  | finished hrequests program registry =>
      rename_i frame waiting lib
      cases waiting with
      | nil => trivial
      | cons frame' waiting =>
          obtain ⟨⟨request, requests, here, hrequests, hfound, hlocation⟩, hrest⟩ := hlinked
          refine ⟨hrest.mono hgrows, fun _ _ => ?_⟩
          rw [hrequests]
          refine List.forall_mem_singleton.mpr fun name' here' hfound' => ?_
          rw [(Grows.add registry _).requested?, hfound] at hfound'
          cases hfound'
          exact has_add registry hlocation
  | returned => exact hlinked.1
  | abandoned => exact linked_error hlinked.1 hgrows _

theorem Step.library (next : Step disk m m') (h : m.Sound disk) : m'.library.Sound disk := by
  cases next with
  | stuck | begun | passed | refused | fetched | failed | returned | abandoned =>
      exact ⟨h.library.index, h.library.text, h.library.imports⟩
  | finished hrequests program registry =>
      rename_i frame waiting lib
      obtain ⟨htokens, htext, before, hbefore, hmeets⟩ := h.frames frame List.mem_cons_self
      rw [hrequests, List.append_nil] at hbefore
      refine h.library.add registry (fun here hlocation => h.fresh here ?_) htext htokens (hbefore ▸ hmeets)
      exact List.mem_filterMap.mpr ⟨frame.unit, List.mem_cons_self, hlocation⟩

theorem Step.sound (next : Step disk m m') (h : m.Sound disk) : m'.Sound disk where
  library := next.library h
  orderly := next.orderly h.orderly
  fresh := next.fresh h.orderly h.fresh
  frames := next.frames h.linked h.frames
  linked := next.linked h.linked
  distinct := (next.numbers h.distinct h.used).1
  used := (next.numbers h.distinct h.used).2

end Machine
end Library
end OnePass
