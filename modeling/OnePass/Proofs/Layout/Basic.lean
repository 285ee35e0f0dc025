import OnePass.Proofs.Layout.Imports
import OnePass.Proofs.Tree.Postorder

/-!
What was read and what was built of it. `Lays S d r l ps` says that tokens were read from the front of `r` and `l`
is left, and that the parts `ps` came of them: the imports among the tokens are those of the parts; the parts are
nested no deeper than the depth `d` leaves room for; their spans are such as the survey `S` knows of; and if the
region is orderly, they are laid out one behind the other from the first of those tokens to the last, and the calls
in them end behind their arguments. There is a rule for each way in which a part comes of others.
-/

namespace OnePass

open Grammar

/-- Neither an import nor a call. -/
def Part.isPlain (p : Part) : Bool := !p.isImport && p.call?.isNone

theorem Part.isPlain_iff {p : Part} : p.isPlain = true ↔ p.isImport = false ∧ p.call? = none := by
  simp [isPlain]

/-- A file that is surveyed: its tokens, and what is known of the spans that are made from theirs. -/
structure Survey where
  source : Source
  tokens : List Token
  span : Span → Prop
  /-- Is it asked where failures point? If not, all may be of other files. -/
  locates : Prop
  first : span (.ofLength 0 0 source.id)
  last : span (.ofLength source.size 0 source.id)
  ofToken : ∀ t ∈ tokens, span t.span
  merge : ∀ {a b : Span}, span a → span b → span (a.merge b)
  opening : ∀ {a : Span}, span a → span a.opening

namespace Survey

/-- A survey that asks nothing of spans and failures. -/
def plain (source : Source) (tokens : List Token) : Survey where
  source
  tokens
  span _ := True
  locates := False
  first := trivial
  last := trivial
  ofToken _ _ := trivial
  merge _ _ := trivial
  opening _ := trivial

end Survey

/-- The parts `ps` were read from `r`, and `l` is left. -/
structure Lays (S : Survey) (depth : Nat) (r l : Region) (ps : List Part) : Prop where
  carries : r.Carries l ps
  shallow : ∀ p ∈ ps, p.Shallow (maxDepth + 1 - depth)
  lies : ∀ p ∈ ps, p.Lies S.span
  laid : r.Orderly S.source → ∀ p ∈ ps, p.Laid S.source
  closed : r.Orderly S.source → ∀ p ∈ ps, p.Closed
  inOrder : r.Orderly S.source → Span.InOrder r.head.span.start l.last.stop (ps.map Part.span)

namespace Lays

variable {S : Survey} {d : Nat} {r l m : Region} {ps qs : List Part}

theorem leaves (h : Lays S d r l ps) : r.Leaves l := h.carries.leaves

theorem span_of_mem (h : Lays S d r l ps) {p : Part} (hp : p ∈ ps) : S.span p.span := (h.lies p hp).span

theorem span {p : Part} (h : Lays S d r l [p]) : S.span p.span := h.span_of_mem List.mem_cons_self

theorem nil (h : r.Spares l) : Lays S d r l [] :=
  ⟨.skip h, nofun, nofun, fun _ => nofun, fun _ => nofun, fun _ => .nil⟩

theorem mono {d' : Nat} (h : Lays S d' r l ps) (hle : d ≤ d') : Lays S d r l ps :=
  { h with shallow := fun p hp => (h.shallow p hp).mono (Nat.sub_le_sub_left hle _) }

/-- One thing after the other. -/
theorem append (h : Lays S d r l ps) (h' : Lays S d l m qs) : Lays S d r m (ps ++ qs) where
  carries := h.carries.append h'.carries
  shallow := List.forall_mem_append.mpr ⟨h.shallow, h'.shallow⟩
  lies := List.forall_mem_append.mpr ⟨h.lies, h'.lies⟩
  laid hr :=
    let ⟨_, reads⟩ := h.leaves
    List.forall_mem_append.mpr ⟨h.laid hr, h'.laid (reads.orderly hr)⟩
  closed hr :=
    let ⟨_, reads⟩ := h.leaves
    List.forall_mem_append.mpr ⟨h.closed hr, h'.closed (reads.orderly hr)⟩
  inOrder hr := by
    obtain ⟨_, reads⟩ := h.leaves
    obtain ⟨_, reads'⟩ := h'.leaves
    have hl := reads.orderly hr
    rw [List.map_append]
    exact (h.inOrder hr).append (h'.inOrder hl) hl.last_le_head (reads.head_le hr)
      (reads'.last_precedes hl).stop

theorem andThen (h : Lays S d r l ps) (h' : l.Spares m) : Lays S d r m ps :=
  List.append_nil ps ▸ h.append (nil h')

theorem after (h : r.Spares l) (h' : Lays S d l m ps) : Lays S d r m ps := (nil h).append h'

/-- What was read from a region that was carved out ends in front of what closes it. -/
theorem last_lt {inner rest : Region} (h : Lays S d inner l ps) (hc : r.Encloses inner rest)
    (hr : r.Orderly S.source) : l.last.stop < rest.last.stop := by
  obtain ⟨_, reads⟩ := h.leaves
  have ends := (reads.orderly (hc.orderly hr)).last_le_stop
  rw [reads.stop] at ends
  exact Nat.lt_of_le_of_lt ends (hc.ends hr)

/-- What was read from a region that was carved out, up to its end. -/
theorem carved {inner rest : Region} (hc : r.Encloses inner rest) (h : Lays S d inner l ps)
    (hl : l.hasNext = false) : Lays S d r rest ps where
  carries := .carved hc h.carries hl
  shallow := h.shallow
  lies := h.lies
  laid hr := h.laid (hc.orderly hr)
  closed hr := h.closed (hc.orderly hr)
  inOrder hr := (h.inOrder (hc.orderly hr)).mono (hc.begins hr) (Nat.le_of_lt (h.last_lt hc hr))

/-- What begins with the first token and ends with the last that was read is laid out if its parts are. -/
theorem whole {p : Part} (h : Lays S d r l p.parts) (hr : r.Orderly S.source)
    (hspan : p.span = l.spanFrom r.head.span) : p.Laid S.source := by
  obtain ⟨_, reads⟩ := h.leaves
  refine .mk ?_ ?_ (h.laid hr) <;> rw [hspan, Region.spanFrom]
  · exact hr.head_within.merge (reads.orderly hr).last_within
  · exact (h.inOrder hr).mono (Nat.min_le_left _ _) (Nat.le_max_right _ _)

/-- What goes from the first token that was read to the last. -/
theorem inOrder_whole {p : Part} (h : r.Leaves l) (hlt : l.size < r.size)
    (hspan : p.span = l.spanFrom r.head.span) (hr : r.Orderly S.source) :
    Span.InOrder r.head.span.start l.last.stop ([p].map Part.span) := by
  obtain ⟨_, reads⟩ := h
  rw [List.map_singleton, hspan, Region.spanFrom, (reads.head_precedes hr hlt).merge_eq]
  exact ⟨List.forall_mem_singleton.mpr ⟨Nat.le_refl _, Nat.le_refl _⟩, List.pairwise_singleton _ _⟩

/-- A part from the first token that was read to the last. -/
theorem spanning {p : Part} (h : Lays S (d + p.weight) r l p.parts) (hlt : l.size < r.size)
    (hspan : p.span = l.spanFrom r.head.span) (hs : S.span (l.spanFrom r.head.span))
    (hw : p.weight ≤ maxDepth + 1 - d) (hp : p.isImport = false)
    (hcall : r.Orderly S.source → ∀ c, p.call? = some c → c.Closes) : Lays S d r l [p] where
  carries := h.carries.node hp
  shallow := by
    refine List.forall_mem_singleton.mpr (.of_parts hw ?_)
    rw [Nat.sub_sub]
    exact h.shallow
  lies := List.forall_mem_singleton.mpr (.mk (hspan ▸ hs) h.lies)
  laid hr := List.forall_mem_singleton.mpr (h.whole hr hspan)
  closed hr := List.forall_mem_singleton.mpr (.mk (hcall hr) (h.closed hr))
  inOrder hr := inOrder_whole h.leaves hlt hspan hr

/-- A part of this kind that is neither an import nor a call. -/
theorem node {p : Part} (h : Lays S (d + p.weight) r l p.parts) (hlt : l.size < r.size)
    (hspan : p.span = l.spanFrom r.head.span) (hs : S.span (l.spanFrom r.head.span))
    (hw : p.weight ≤ maxDepth + 1 - d) (hp : p.isPlain = true) : Lays S d r l [p] := by
  obtain ⟨noImport, noCall⟩ := Part.isPlain_iff.mp hp
  exact h.spanning hlt hspan hs hw noImport fun _ => Part.closes_of_none noCall

/-- A part that does not count for the depth. -/
theorem plainNode {p : Part} (h : Lays S d r l p.parts) (hlt : l.size < r.size)
    (hspan : p.span = l.spanFrom r.head.span) (hs : S.span (l.spanFrom r.head.span)) (hw : p.weight = 0)
    (hp : p.isPlain = true) : Lays S d r l [p] :=
  node (by rw [hw]; exact h) hlt hspan hs (by rw [hw]; exact Nat.zero_le _) hp

/-- A part with none of its own, an import for one. -/
theorem leaf {p : Part} (h : r.Carries l [p]) (hlt : l.size < r.size) (hspan : p.span = l.spanFrom r.head.span)
    (hs : S.span (l.spanFrom r.head.span)) (hparts : p.parts = []) (hw : p.weight = 0) (hcall : p.call? = none) :
    Lays S d r l [p] where
  carries := h
  shallow := List.forall_mem_singleton.mpr (.of_parts (hw ▸ Nat.zero_le _) (hparts ▸ nofun))
  lies := List.forall_mem_singleton.mpr (.mk (hspan ▸ hs) (hparts ▸ nofun))
  laid hr := by
    obtain ⟨_, reads⟩ := h.leaves
    refine List.forall_mem_singleton.mpr (.mk ?_ ?_ (hparts ▸ nofun))
    · rw [hspan]
      exact hr.head_within.merge (reads.orderly hr).last_within
    · rw [hparts]
      exact .nil
  closed _ := List.forall_mem_singleton.mpr (.of_none hcall (hparts ▸ nofun))
  inOrder hr := inOrder_whole h.leaves hlt hspan hr

/-- A part that stands for another. -/
theorem wrap {p q : Part} (h : Lays S d r l [p]) (hspan : q.span = p.span) (hparts : q.parts = [p])
    (hw : q.weight = 0) (hq : q.isPlain = true) : Lays S d r l [q] where
  carries := .node (hparts ▸ h.carries) (Part.isPlain_iff.mp hq).1
  shallow := by
    refine List.forall_mem_singleton.mpr (.of_parts (hw ▸ Nat.zero_le _) ?_)
    rw [hparts, hw]
    exact h.shallow
  lies := by
    have inner := List.forall_mem_singleton.mp h.lies
    exact List.forall_mem_singleton.mpr (.mk (hspan ▸ inner.span) (hparts ▸ h.lies))
  laid hr := by
    have inner := List.forall_mem_singleton.mp (h.laid hr)
    refine List.forall_mem_singleton.mpr (.mk ?_ ?_ (hparts ▸ h.laid hr))
    · cases inner with
      | mk within => exact hspan ▸ within
    · rw [hparts, hspan, List.map_singleton]
      exact ⟨List.forall_mem_singleton.mpr ⟨Nat.le_refl _, Nat.le_refl _⟩, List.pairwise_singleton _ _⟩
  closed hr := List.forall_mem_singleton.mpr (.of_none (Part.isPlain_iff.mp hq).2 (hparts ▸ h.closed hr))
  inOrder hr := by
    rw [List.map_singleton, hspan]
    exact h.inOrder hr

/-- A part that is the first token alone. -/
theorem token {p : Part} (h : r.Spares l) (hlt : l.size < r.size) (hspan : p.span = r.head.span)
    (hs : S.span r.head.span) (hparts : p.parts = []) (hw : p.weight = 0) (hp : p.isPlain = true) :
    Lays S d r l [p] where
  carries := .node (hparts ▸ .skip h) (Part.isPlain_iff.mp hp).1
  shallow := List.forall_mem_singleton.mpr (.of_parts (hw ▸ Nat.zero_le _) (hparts ▸ nofun))
  lies := List.forall_mem_singleton.mpr (.mk (hspan ▸ hs) (hparts ▸ nofun))
  laid hr := by
    refine List.forall_mem_singleton.mpr (.mk (hspan ▸ hr.head_within) ?_ (hparts ▸ nofun))
    rw [hparts]
    exact .nil
  closed _ := List.forall_mem_singleton.mpr (.of_none (Part.isPlain_iff.mp hp).2 (hparts ▸ nofun))
  inOrder hr := by
    obtain ⟨_, reads⟩ := h.leaves
    rw [List.map_singleton, hspan]
    exact ⟨List.forall_mem_singleton.mpr ⟨Nat.le_refl _, (reads.head_precedes hr hlt).stop⟩,
      List.pairwise_singleton _ _⟩

end Lays

end OnePass
