import Mathlib.Data.Nat.Count
import Mathlib.Data.String.Basic
import Mathlib.Order.Interval.Finset.Nat
import OnePass.Proofs.Text.Position

/-!
Excerpts underline what they point at. They can be made by cutting the text at byte offsets, taking one from a
column and bounding a width from both sides, all of which are undefined in some cases: none of these occurs,
whatever the text and the span. The carets of an excerpt stand under the characters of the span that are on the
line shown, or under one place if there are none.
-/

namespace OnePass

/-! ### Operations that may be undefined -/

/-- The text between two byte offsets, defined if these are places between characters and in order. -/
def slice? (s : String) (start stop : Nat) : Option String :=
  if start ≤ stop ∧ String.Pos.Raw.IsValid s ⟨start⟩ ∧ String.Pos.Raw.IsValid s ⟨stop⟩ then
    some (String.Pos.Raw.extract s ⟨start⟩ ⟨stop⟩)
  else none

/-- A difference that is not negative. -/
def subtract? (a b : Nat) : Option Nat := if b ≤ a then some (a - b) else none

/-- A number moved between two bounds, which must be in order. -/
def clamp? (n least greatest : Nat) : Option Nat :=
  if least ≤ greatest then some (max least (min n greatest)) else none

/-- The byte offset of the last newline. -/
def lastNewline? : List Char → Option Nat
  | [] => none
  | c :: cs => ((lastNewline? cs).map (c.utf8Size + ·)).or (if c = '\n' then some 0 else none)

namespace Source

instance (s : Source) (b : Nat) : Decidable (s.IsBoundary b) :=
  inferInstanceAs (Decidable (String.Pos.Raw.IsValid s.text ⟨b⟩))

/-- The last boundary up to an offset, looked for downwards. -/
def floorFrom (s : Source) : Nat → Nat
  | 0 => 0
  | n + 1 => if s.IsBoundary (n + 1) then n + 1 else s.floorFrom n

/-- The last boundary up to an offset, or the end of the text if the offset is beyond it. -/
def floor (s : Source) (o : Nat) : Nat := s.floorFrom (min o s.size)

/-- The position of an offset, from the text in front of it and what is behind the last newline of that. -/
def position? (s : Source) (o : Nat) : Option Position := do
  let before ← slice? s.text 0 (s.floor o)
  let start := (lastNewline? before.toList).elim 0 (· + 1)
  let line ← slice? before start before.utf8ByteSize
  return ⟨before.toList.count '\n' + 1, line.length + 1⟩

def snippet? (s : Source) (start stop : Nat) : Option String :=
  slice? s.text (s.floor start) (max (s.floor stop) (s.floor start))

/-- Where the character of a number begins. -/
def offset (s : Source) (i : Nat) : Nat := byteCount (s.text.toList.take i)

end Source

namespace Reference

/-- The excerpt, made with operations that may be undefined. -/
def excerpt? (r : Reference) : Option String := do
  let place ← r.source.position? r.span.start
  let text := r.source.lineText place.line
  let margin := repeated ' ' (toString place.line).length
  let skipped ← subtract? place.column 1
  let covered ← r.source.snippet? r.span.start r.span.stop
  let width ← clamp? covered.length 1 (max 1 (text.length - skipped))
  let indent := repeated ' ' skipped
  let carets := repeated '^' width
  return s!"{margin}--> {r.source.path}:{place.line}:{place.column}\n" ++
    s!"{margin} ┃\n" ++
    s!"{place.line} ┃ {text}\n" ++
    s!"{margin} ┃ {indent}{carets}\n"

/-- The character lies in the span, as far as that is in the text, and it is shown in the excerpt, in the column
where the span begins or to the right of it. -/
def Covers (r : Reference) (i : Nat) : Prop :=
  let place := r.source.position (r.source.offset i)
  r.source.floor r.span.start ≤ r.source.offset i ∧
    r.source.offset i < max (r.source.floor r.span.stop) (r.source.floor r.span.start) ∧
    place.line = r.position.line ∧ r.position.column ≤ place.column ∧
    place.column ≤ (r.source.lineText r.position.line).length

instance (r : Reference) : DecidablePred r.Covers := fun _ => inferInstanceAs (Decidable (_ ∧ _))

/-- How many characters of the text are covered. -/
def coverage (r : Reference) : Nat := Nat.count r.Covers r.source.text.length

end Reference

/-- The diagnostic as a text, made with operations that may be undefined. -/
def Diagnostic.render? (d : Diagnostic) : Option String := do
  let excerpts ← d.references.mapM (·.excerpt?)
  return d.heading ++ "\n" ++ String.join excerpts ++ d.hint.elim "" fun hint => s!"help: {hint}\n"

/-! ### They are defined -/

theorem utf8Len_eq_byteCount (cs : List Char) : String.utf8Len cs = byteCount cs := by
  induction cs with
  | nil => rfl
  | cons c cs ih => rw [String.utf8Len_cons, byteCount, ih, Nat.add_comm]

section Slices

variable {s : String} {front inside rest : List Char} (h : s.toList = front ++ inside ++ rest)

include h

theorem extract_eq : String.Pos.Raw.extract s ⟨byteCount front⟩ ⟨byteCount (front ++ inside)⟩ = .ofList inside := by
  have valid := String.extract_of_valid front inside rest
  rwa [← h, String.ofList_toList, utf8Len_eq_byteCount, utf8Len_eq_byteCount, ← byteCount_append] at valid

theorem slice?_eq : slice? s (byteCount front) (byteCount (front ++ inside)) = some (.ofList inside) := by
  have start : String.Pos.Raw.IsValid s ⟨byteCount front⟩ :=
    @Source.isValid_byteCount ⟨0, "", s⟩ front (inside ++ rest) (h.trans (List.append_assoc ..))
  have stop : String.Pos.Raw.IsValid s ⟨byteCount (front ++ inside)⟩ :=
    @Source.isValid_byteCount ⟨0, "", s⟩ (front ++ inside) rest h
  have ordered : byteCount front ≤ byteCount (front ++ inside) := byteCount_le_of_isPrefix (List.prefix_append ..)
  rw [slice?, if_pos ⟨ordered, start, stop⟩, extract_eq h]

end Slices

theorem lastNewline?_cases (cs : List Char) :
    '\n' ∉ cs ∧ lastNewline? cs = none ∨
      ∃ front, cs = front ++ '\n' :: lastLine cs ∧ lastNewline? cs = some (byteCount front) := by
  induction cs with
  | nil => exact .inl ⟨List.not_mem_nil, rfl⟩
  | cons c cs ih =>
      rw [lastNewline?]
      rcases ih with ⟨plain, hnone⟩ | ⟨front, hcs, hsome⟩
      · rw [hnone]
        by_cases hc : c = '\n'
        · subst hc
          refine .inr ⟨[], ?_, rfl⟩
          exact congrArg ('\n' :: ·) ((lastLine_newline [] cs).trans (lastLine_of_not_mem plain)).symm
        · refine .inl ⟨List.not_mem_cons_of_ne_of_not_mem (Ne.symm hc) plain, ?_⟩
          rw [if_neg hc]
          rfl
      · refine .inr ⟨c :: front, ?_, ?_⟩
        · have same : lastLine (c :: cs) = lastLine cs := by
            rw [hcs, lastLine_newline, ← List.cons_append, lastLine_newline]
          rw [same, List.cons_append, ← hcs]
        · rw [hsome]
          rfl

/-- What is behind the last newline begins one byte behind it, or with the text if there is none. -/
theorem exists_lastNewline? (cs : List Char) :
    ∃ front, cs = front ++ lastLine cs ∧ (lastNewline? cs).elim 0 (· + 1) = byteCount front := by
  rcases lastNewline?_cases cs with ⟨plain, hnone⟩ | ⟨front, hcs, hsome⟩
  · exact ⟨[], (lastLine_of_not_mem plain).symm, by rw [hnone]; rfl⟩
  · refine ⟨front ++ ['\n'], by rw [List.append_assoc]; exact hcs, ?_⟩
    rw [hsome, byteCount_append]
    rfl

namespace Source

variable (s : Source)

theorem isFloor_floorFrom {n : Nat} (hn : n ≤ s.size) : s.IsFloor n (s.floorFrom n) := by
  induction n with
  | zero =>
      exact ⟨isBoundary_iff.mpr ⟨[], List.nil_prefix, rfl⟩, Nat.zero_le _,
        fun b _ hb => hb.trans (Nat.min_le_left _ _)⟩
  | succ n ih =>
      unfold floorFrom
      split
      · rename_i here
        exact ⟨here, Nat.le_min.mpr ⟨Nat.le_refl _, hn⟩, fun b _ hb => hb.trans (Nat.min_le_left _ _)⟩
      · rename_i inside
        obtain ⟨boundary, le, greatest⟩ := ih (Nat.le_of_succ_le hn)
        refine ⟨boundary, by omega, fun b hb hle => greatest b hb ?_⟩
        have : b ≠ n + 1 := fun heq => inside (heq ▸ hb)
        omega

theorem IsFloor.unique {s : Source} {o b b' : Nat} (h : s.IsFloor o b) (h' : s.IsFloor o b') : b = b' :=
  Nat.le_antisymm (h'.greatest b h.boundary h.le) (h.greatest b' h'.boundary h'.le)

theorem floor_eq (o : Nat) : s.floor o = byteCount (s.before o) := by
  obtain ⟨boundary, le, greatest⟩ := s.isFloor_floorFrom (Nat.min_le_right o s.size)
  have floor : s.IsFloor o (s.floorFrom (min o s.size)) :=
    ⟨boundary, by omega, fun b hb hle => greatest b hb (by omega)⟩
  exact floor.unique (s.isFloor_before o)

theorem position?_eq (o : Nat) : s.position? o = some (s.position o) := by
  obtain ⟨rest, htext⟩ := s.before_isPrefix o
  have before : slice? s.text 0 (s.floor o) = some (.ofList (s.before o)) := by
    rw [floor_eq]
    exact slice?_eq (htext.symm.trans (congrArg (· ++ rest) (List.nil_append _).symm))
  obtain ⟨front, hfront, hstart⟩ := exists_lastNewline? (s.before o)
  have line : slice? (.ofList (s.before o)) (byteCount front) (String.ofList (s.before o)).utf8ByteSize =
      some (.ofList (lastLine (s.before o))) := by
    have whole : (String.ofList (s.before o)).toList = front ++ lastLine (s.before o) ++ [] := by
      rw [String.toList_ofList, List.append_nil, ← hfront]
    rw [← byteCount_toList, String.toList_ofList]
    nth_rewrite 2 [hfront]
    exact slice?_eq whole
  rw [position?, before, position_eq]
  simp only [Option.bind_eq_bind, Option.bind_some, String.toList_ofList, hstart, line, String.length_ofList]
  rfl

theorem snippet?_eq (start stop : Nat) : s.snippet? start stop = some (s.snippet start stop) := by
  have hstart := s.before_isPrefix start
  have hstop := s.before_isPrefix stop
  rw [snippet?, snippet, floor_eq, floor_eq]
  rcases List.prefix_or_prefix_of_prefix hstart hstop with ⟨inside, hinside⟩ | shorter
  · obtain ⟨rest, htext⟩ := hstop
    rw [Nat.max_eq_left (byteCount_le_of_isPrefix ⟨inside, hinside⟩), ← hinside, List.drop_left]
    exact slice?_eq (by rw [hinside, htext])
  · obtain ⟨rest, htext⟩ := hstart
    rw [Nat.max_eq_right (byteCount_le_of_isPrefix shorter), List.drop_eq_nil_of_le shorter.length_le]
    have whole : s.text.toList = s.before start ++ [] ++ rest := by rw [List.append_nil, htext]
    have empty := slice?_eq whole
    rwa [List.append_nil] at empty

end Source

/-! ### The line shown -/

theorem lineChars_eq (n : Nat) (cs : List Char) : lineChars n cs = ((cs.splitOn '\n')[n]?).getD [] := by
  induction n generalizing cs with
  | zero =>
      obtain ⟨lines, hlines⟩ := splitOn_head cs
      rw [hlines, List.getElem?_cons_zero, Option.getD_some]
      cases cs <;> rfl
  | succ n ih =>
      have step : lineChars (n + 1) cs = lineChars n ((cs.dropWhile (· ≠ '\n')).drop 1) := by
        cases cs with
        | nil => cases n <;> rfl
        | cons => rfl
      rw [step, ih]
      by_cases h : '\n' ∈ cs
      · obtain ⟨first, rest, rfl, hfirst⟩ := List.eq_append_cons_of_mem h
        rw [List.splitOn_append_cons_self_of_not_mem hfirst, List.getElem?_cons_succ,
          List.dropWhile_append_of_pos (ne_newline hfirst), List.dropWhile_cons_of_neg (by decide), List.drop_one,
          List.tail_cons]
      · rw [List.splitOn_eq_singleton h, List.dropWhile_eq_nil_iff.mpr (ne_newline h)]
        cases n <;> rfl

theorem length_dropReturns_le (cs : List Char) : (dropReturns cs).length ≤ cs.length := by
  rw [dropReturns, List.length_reverse]
  exact (List.dropWhile_suffix _).length_le.trans (Nat.le_of_eq List.length_reverse)

/-- Behind a front part, as many characters are on the same line as this is long. -/
theorem onLine_iff {front rest : List Char} {k length : Nat} (hk : k ≤ rest.length)
    (hlength : length ≤ (lastLine front).length + (rest.takeWhile (· ≠ '\n')).length) :
    (front ++ rest.take k).count '\n' = front.count '\n' ∧
        (lastLine front).length ≤ (lastLine (front ++ rest.take k)).length ∧
        (lastLine (front ++ rest.take k)).length < length ↔
      k < length - (lastLine front).length := by
  have shift (plain : '\n' ∉ rest.take k) :
      (lastLine (front ++ rest.take k)).length = (lastLine front).length + k := by
    rw [lastLine_append front plain, List.length_append, List.length_take_of_le hk]
  rw [List.count_append, Nat.add_eq_left, List.count_eq_zero]
  constructor
  · rintro ⟨plain, _, hlt⟩
    rw [shift plain] at hlt
    omega
  · intro hlt
    have within : rest.take k <+: rest.takeWhile (· ≠ '\n') := by
      refine List.prefix_of_prefix_length_le (List.take_prefix ..) (List.takeWhile_prefix _) ?_
      rw [List.length_take_of_le hk]
      omega
    have plain : '\n' ∉ rest.take k := by
      intro hmem
      have differs := List.mem_takeWhile_imp (within.subset hmem)
      exact of_decide_eq_true differs rfl
    rw [shift plain]
    exact ⟨plain, by omega, by omega⟩

namespace Source

variable {s : Source} {i j : Nat}

/-- A position lies on the line that the text in front of it ends in. -/
theorem lineText_position {o : Nat} {rest : List Char} (h : s.before o ++ rest = s.text.toList) :
    s.lineText (s.position o).line =
      .ofList (dropReturns (lastLine (s.before o) ++ rest.takeWhile (· ≠ '\n'))) := by
  rw [lineText, position, Nat.add_sub_cancel, lineChars_eq, ← h, getElem?_splitOn, Option.getD_some]

theorem length_lineText_le {o : Nat} {rest : List Char} (h : s.before o ++ rest = s.text.toList) :
    (s.lineText (s.position o).line).length ≤
      (lastLine (s.before o)).length + (rest.takeWhile (· ≠ '\n')).length := by
  rw [lineText_position h, String.length_ofList, ← List.length_append]
  exact length_dropReturns_le _

/-! ### The characters covered -/

theorem offset_lt (h : i < j) (hj : j ≤ s.text.length) : s.offset i < s.offset j := by
  have split : s.text.toList.take j = s.text.toList.take i ++ (s.text.toList.drop i).take (j - i) := by
    rw [← List.take_add, Nat.add_sub_cancel' (Nat.le_of_lt h)]
  have some : (s.text.toList.drop i).take (j - i) ≠ [] := by
    rw [← List.length_pos_iff, List.length_take, List.length_drop, String.length_toList]
    omega
  have := byteCount_pos some
  rw [offset, offset, split, byteCount_append]
  omega

theorem offset_lt_iff (hi : i ≤ s.text.length) (hj : j ≤ s.text.length) : s.offset i < s.offset j ↔ i < j := by
  refine ⟨fun h => ?_, fun h => offset_lt h hj⟩
  rcases Nat.lt_trichotomy i j with hlt | rfl | hlt
  · exact hlt
  · exact absurd h (Nat.lt_irrefl _)
  · exact absurd h (Nat.lt_asymm (offset_lt hlt hi))

theorem before_offset (s : Source) (i : Nat) : s.before (s.offset i) = s.text.toList.take i :=
  before_byteCount (List.take_prefix ..)

theorem length_before_le (s : Source) (o : Nat) : (s.before o).length ≤ s.text.length := by
  rw [← String.length_toList]
  exact (s.before_isPrefix o).length_le

theorem floor_eq_offset (s : Source) (o : Nat) : s.floor o = s.offset (s.before o).length := by
  rw [floor_eq, offset, ← List.prefix_iff_eq_take.mp (s.before_isPrefix o)]

end Source

namespace Reference

open Source

/-- The characters covered are those next to each other from where the span begins to where the span or the line
ends. -/
theorem covers_iff (r : Reference) {i : Nat} (hi : i < r.source.text.length) :
    let first := (r.source.before r.span.start).length
    r.Covers i ↔ first ≤ i ∧ i < first + min ((r.source.before r.span.stop).length - first)
      ((r.source.lineText r.position.line).length - (r.position.column - 1)) := by
  intro first
  obtain ⟨rest, htext⟩ := r.source.before_isPrefix r.span.start
  have hrest : first + rest.length = r.source.text.length := by
    rw [← String.length_toList, ← htext, List.length_append]
  have hfirst := r.source.length_before_le r.span.start
  have hlast := r.source.length_before_le r.span.stop
  have starts : r.source.floor r.span.start ≤ r.source.offset i ↔ first ≤ i := by
    rw [floor_eq_offset, ← Nat.not_lt, offset_lt_iff (Nat.le_of_lt hi) hfirst, Nat.not_lt]
  have stops : r.source.offset i < max (r.source.floor r.span.stop) (r.source.floor r.span.start) ↔
      i < (r.source.before r.span.stop).length ∨ i < first := by
    rw [lt_max_iff, floor_eq_offset, floor_eq_offset, offset_lt_iff (Nat.le_of_lt hi) hlast,
      offset_lt_iff (Nat.le_of_lt hi) hfirst]
  unfold Covers
  rw [starts, stops]
  by_cases hle : first ≤ i
  · have hfront : r.source.text.toList.take i = r.source.before r.span.start ++ rest.take (i - first) := by
      rw [← htext, List.take_append, List.take_of_length_le hle]
    have line := onLine_iff (k := i - first) (by omega) (length_lineText_le htext)
    simp only [position_eq, before_offset, hfront, Reference.position, Nat.add_right_cancel_iff,
      Nat.add_one_le_iff, Nat.lt_add_one_iff, Nat.add_sub_cancel] at line ⊢
    rw [line]
    omega
  · exact iff_of_false (fun h => hle h.1) (fun h => hle h.1)

theorem coverage_eq (r : Reference) :
    let first := (r.source.before r.span.start).length
    r.coverage = min ((r.source.before r.span.stop).length - first)
      ((r.source.lineText r.position.line).length - (r.position.column - 1)) := by
  intro first
  have hlast := r.source.length_before_le r.span.stop
  have interval : (Finset.range r.source.text.length).filter r.Covers =
      Finset.Ico first (first + min ((r.source.before r.span.stop).length - first)
        ((r.source.lineText r.position.line).length - (r.position.column - 1))) := by
    ext i
    rw [Finset.mem_filter, Finset.mem_range, Finset.mem_Ico]
    constructor
    · rintro ⟨hi, hcovers⟩
      exact (r.covers_iff hi).mp hcovers
    · intro hi
      have inside : i < r.source.text.length := by omega
      exact ⟨inside, (r.covers_iff inside).mpr hi⟩
  rw [coverage, Nat.count_eq_card_filter_range, interval, Nat.card_Ico, Nat.add_sub_cancel_left]

theorem caretCount_eq (r : Reference) : r.caretCount = max 1 r.coverage := by
  rw [caretCount, coverage_eq, snippet, String.length_ofList, List.length_drop]

theorem excerpt?_eq (r : Reference) : r.excerpt? = some r.excerpt := by
  have place : r.source.position? r.span.start = some r.position := r.source.position?_eq r.span.start
  have skipped : subtract? r.position.column 1 = some (r.position.column - 1) := if_pos (Nat.le_add_left ..)
  have width : clamp? (r.source.snippet r.span.start r.span.stop).length 1
      (max 1 ((r.source.lineText r.position.line).length - (r.position.column - 1))) = some r.caretCount := by
    rw [clamp?, if_pos (Nat.le_max_left ..), caretCount]
    exact congrArg some (by omega)
  simp only [excerpt?, place, skipped, snippet?_eq, width, Option.bind_eq_bind, Option.bind_some]
  rfl

end Reference

namespace Diagnostic

theorem render_eq (d : Diagnostic) :
    d.render = d.heading ++ "\n" ++ String.join (d.references.map (·.excerpt)) ++
      d.hint.elim "" fun hint => s!"help: {hint}\n" := by
  rw [render]
  cases d.hint <;> rfl

theorem render?_eq (d : Diagnostic) : d.render? = some d.render := by
  have excerpts : d.references.mapM (·.excerpt?) = some (d.references.map (·.excerpt)) := by
    simp only [Reference.excerpt?_eq]
    exact List.mapM_pure
  rw [render?, excerpts, render_eq]
  rfl

/-- Making a diagnostic a text is defined throughout. The text shows for each reference the line where its span begins,
and under it, from the column of that place on, one caret for each character of the span that is shown, or a single one
if there is none. -/
theorem render_underlines (d : Diagnostic) :
    d.render? = some d.render ∧
      d.render = d.heading ++ "\n" ++
        String.join (d.references.map fun r =>
          let place := r.source.position r.span.start
          let margin := repeated ' ' (toString place.line).length
          let text := r.source.lineText place.line
          let indent := repeated ' ' (place.column - 1)
          let carets := repeated '^' (max 1 r.coverage)
          s!"{margin}--> {r.source.path}:{place.line}:{place.column}\n" ++ s!"{margin} ┃\n" ++
            s!"{place.line} ┃ {text}\n" ++ s!"{margin} ┃ {indent}{carets}\n") ++
        d.hint.elim "" fun hint => s!"help: {hint}\n" := by
  refine ⟨d.render?_eq, ?_⟩
  simp only [render_eq, Reference.excerpt, Reference.caretCount_eq, Reference.position]

/-- A span from the second byte of an accent to beyond the line: the accent and the letter behind it are shown, the
carriage return and the newline are not. -/
example : (⟨⟨0, "unit.st", "aéb\r\nc"⟩, ⟨2, 9, 0⟩⟩ : Reference).coverage = 2 := by decide

end Diagnostic

end OnePass
