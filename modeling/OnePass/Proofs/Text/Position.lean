import Mathlib.Data.List.TakeWhile
import OnePass.Proofs.Token.Lossless

/-!
Lines and columns as coordinates of a text. The characters in front of an offset are those up to the last place
between two characters that is not behind it. A front part of a text ends in the line whose number is that of
the newlines in it, behind as many characters of that line as stand behind the last of them. So a position gives
the offset back, and of two places between characters the later one has the later position.
-/

namespace OnePass

/-! ### Front parts of a text -/

theorem takeBytes_isPrefix (n : Nat) (cs : List Char) : takeBytes n cs <+: cs := by
  fun_induction takeBytes n cs with
  | case1 => exact List.nil_prefix
  | case2 n c cs _ ih => exact (List.prefix_cons_inj c).mpr ih
  | case3 => exact List.nil_prefix

theorem byteCount_takeBytes_le (n : Nat) (cs : List Char) : byteCount (takeBytes n cs) ≤ n := by
  fun_induction takeBytes n cs with
  | case1 => exact Nat.zero_le _
  | case2 n c cs _ ih =>
      rw [byteCount]
      omega
  | case3 => exact Nat.zero_le _

theorem byteCount_le_of_isPrefix {front cs : List Char} (h : front <+: cs) : byteCount front ≤ byteCount cs := by
  obtain ⟨rest, rfl⟩ := h
  rw [byteCount_append]
  exact Nat.le_add_right _ _

/-- No longer front part fits into the bytes. -/
theorem isPrefix_takeBytes {front cs : List Char} {n : Nat} (h : front <+: cs) (hn : byteCount front ≤ n) :
    front <+: takeBytes n cs := by
  fun_induction takeBytes n cs generalizing front with
  | case1 => exact h
  | case2 n c cs _ ih =>
      rcases List.prefix_cons_iff.mp h with rfl | ⟨front, rfl, hfront⟩
      · exact List.nil_prefix
      · rw [byteCount] at hn
        exact (List.prefix_cons_inj c).mpr (ih hfront (by omega))
  | case3 n c cs large =>
      rcases List.prefix_cons_iff.mp h with rfl | ⟨front, rfl, _⟩
      · exact List.nil_prefix
      · rw [byteCount] at hn
        omega

/-- Of two front parts, the one with fewer bytes is the front of the other, which has more behind it. -/
theorem exists_between {front front' cs : List Char} (h : front <+: cs) (h' : front' <+: cs)
    (hlt : byteCount front < byteCount front') : ∃ middle, middle ≠ [] ∧ front' = front ++ middle := by
  rcases List.prefix_or_prefix_of_prefix h h' with ⟨middle, rfl⟩ | longer
  · refine ⟨middle, ?_, rfl⟩
    rintro rfl
    rw [List.append_nil] at hlt
    exact Nat.lt_irrefl _ hlt
  · exact absurd (byteCount_le_of_isPrefix longer) (Nat.not_le_of_lt hlt)

/-! ### Lines -/

/-- What stands behind the last newline. -/
def lastLine (cs : List Char) : List Char := (cs.reverse.takeWhile (· ≠ '\n')).reverse

theorem ne_newline {cs : List Char} (h : '\n' ∉ cs) : ∀ c ∈ cs, decide (c ≠ '\n') = true := by
  intro c hc
  exact decide_eq_true fun heq => h (heq ▸ hc)

theorem lastLine_append (front : List Char) {rest : List Char} (h : '\n' ∉ rest) :
    lastLine (front ++ rest) = lastLine front ++ rest := by
  have rest' : ∀ c ∈ rest.reverse, decide (c ≠ '\n') = true := fun c hc => ne_newline h c (List.mem_reverse.mp hc)
  rw [lastLine, lastLine, List.reverse_append, List.takeWhile_append_of_pos rest', List.reverse_append,
    List.reverse_reverse]

theorem lastLine_of_not_mem {cs : List Char} (h : '\n' ∉ cs) : lastLine cs = cs := lastLine_append [] h

/-- Whatever stands in front of a newline is of no account behind it. -/
theorem lastLine_newline (front rest : List Char) : lastLine (front ++ '\n' :: rest) = lastLine rest := by
  have turned : (front ++ '\n' :: rest).reverse = rest.reverse ++ '\n' :: front.reverse := by simp
  rw [lastLine, lastLine, turned, List.takeWhile_append]
  split
  · rename_i whole
    rw [(List.takeWhile_prefix _).eq_of_length whole, List.takeWhile_cons_of_neg (by decide), List.append_nil]
  · rfl

theorem splitOn_head (cs : List Char) :
    ∃ lines, cs.splitOn '\n' = cs.takeWhile (· ≠ '\n') :: lines := by
  by_cases h : '\n' ∈ cs
  · obtain ⟨first, rest, rfl, hfirst⟩ := List.eq_append_cons_of_mem h
    refine ⟨rest.splitOn '\n', ?_⟩
    rw [List.splitOn_append_cons_self_of_not_mem hfirst, List.takeWhile_append_of_pos (ne_newline hfirst),
      List.takeWhile_cons_of_neg (by decide), List.append_nil]
  · exact ⟨[], by rw [List.splitOn_eq_singleton h, List.takeWhile_eq_self_iff.mpr (ne_newline h)]⟩

/-- A front part of a text takes up as many lines as there are newlines in it, with these, and then the front of
the next line. -/
theorem splitOn_front (front rest : List Char) :
    ∃ before lines, (front ++ rest).splitOn '\n' =
        before ++ (lastLine front ++ rest.takeWhile (· ≠ '\n')) :: lines ∧
      before.length = front.count '\n' ∧
      byteCount front = byteCount before.flatten + before.length + byteCount (lastLine front) := by
  -- along the newlines of the front part
  induction hn : front.count '\n' generalizing front with
  | zero =>
      have plain := List.count_eq_zero.mp hn
      obtain ⟨lines, hlines⟩ := splitOn_head (front ++ rest)
      refine ⟨[], lines, ?_, rfl, ?_⟩
      · rw [hlines, List.takeWhile_append_of_pos (ne_newline plain), lastLine_of_not_mem plain, List.nil_append]
      · rw [lastLine_of_not_mem plain]
        exact (Nat.zero_add _).symm
  | succ n ih =>
      have some : '\n' ∈ front := List.count_pos_iff.mp (hn ▸ Nat.succ_pos n)
      obtain ⟨first, front, rfl, hfirst⟩ := List.eq_append_cons_of_mem some
      rw [List.count_append, List.count_eq_zero_of_not_mem hfirst, List.count_cons_self, Nat.zero_add] at hn
      obtain ⟨before, lines, hlines, hlength, hbytes⟩ := ih front (Nat.succ.inj hn)
      refine ⟨first :: before, lines, ?_, congrArg (· + 1) hlength, ?_⟩
      · rw [List.append_assoc, List.cons_append, List.splitOn_append_cons_self_of_not_mem hfirst, hlines,
          lastLine_newline, List.cons_append]
      · rw [lastLine_newline, byteCount_append, byteCount, hbytes, List.flatten_cons, byteCount_append,
          List.length_cons]
        have : '\n'.utf8Size = 1 := rfl
        omega

theorem getElem?_splitOn (front rest : List Char) :
    ((front ++ rest).splitOn '\n')[front.count '\n']? = some (lastLine front ++ rest.takeWhile (· ≠ '\n')) := by
  obtain ⟨before, lines, hlines, hlength, _⟩ := splitOn_front front rest
  rw [hlines, ← hlength, List.getElem?_append_right (Nat.le_refl _), Nat.sub_self, List.getElem?_cons_zero]

/-- The one is on an earlier line, or further to the left on the same line. -/
def Position.Before (p q : Position) : Prop := p.line < q.line ∨ p.line = q.line ∧ p.column < q.column

theorem Position.Before.ne {p q : Position} (h : p.Before q) : p ≠ q := by
  rintro rfl
  rcases h with h | ⟨_, h⟩ <;> exact Nat.lt_irrefl _ h

namespace Source

variable {s : Source} {front rest middle : List Char} {o b : Nat}

def lines (s : Source) : List (List Char) := s.text.toList.splitOn '\n'

/-- A place between two characters, or at an end of the text. -/
def IsBoundary (s : Source) (b : Nat) : Prop := String.Pos.Raw.IsValid s.text ⟨b⟩

/-- The last boundary up to an offset, or up to the end of the text if the offset is beyond it. -/
structure IsFloor (s : Source) (o b : Nat) : Prop where
  boundary : s.IsBoundary b
  le : b ≤ min o s.size
  greatest : ∀ b', s.IsBoundary b' → b' ≤ min o s.size → b' ≤ b

/-! ### Boundaries -/

theorem isBoundary_iff : s.IsBoundary b ↔ ∃ front, front <+: s.text.toList ∧ byteCount front = b := by
  constructor
  · intro h
    obtain ⟨front, rest, htext, hb⟩ := String.Pos.Raw.isValid_iff_exists_append.mp h
    refine ⟨front.toList, ⟨rest.toList, by rw [htext, String.toList_append]⟩, ?_⟩
    rw [byteCount_toList]
    exact (congrArg String.Pos.Raw.byteIdx hb).symm
  · rintro ⟨front, ⟨rest, htext⟩, rfl⟩
    exact isValid_byteCount htext.symm

theorem before_isPrefix (s : Source) (o : Nat) : s.before o <+: s.text.toList := takeBytes_isPrefix ..

theorem before_byteCount (h : front <+: s.text.toList) : s.before (byteCount front) = front := by
  obtain ⟨rest, htext⟩ := h
  rw [before, ← htext, takeBytes_byteCount]

theorem isFloor_before (s : Source) (o : Nat) : s.IsFloor o (byteCount (s.before o)) where
  boundary := isBoundary_iff.mpr ⟨_, s.before_isPrefix o, rfl⟩
  le := by
    refine Nat.le_min.mpr ⟨byteCount_takeBytes_le .., ?_⟩
    rw [size, ← byteCount_toList]
    exact byteCount_le_of_isPrefix (s.before_isPrefix o)
  greatest := by
    intro b hb hle
    obtain ⟨front, hfront, rfl⟩ := isBoundary_iff.mp hb
    exact byteCount_le_of_isPrefix (isPrefix_takeBytes hfront (Nat.le_trans hle (Nat.min_le_left _ _)))

/-! ### Positions -/

theorem position_eq (s : Source) (o : Nat) :
    s.position o = ⟨(s.before o).count '\n' + 1, (lastLine (s.before o)).length + 1⟩ := by
  rw [position, lastLine, List.length_reverse]

/-- More text moves a position to the right, or down if there is a newline in it. -/
theorem before_append (hm : middle ≠ []) :
    Position.Before ⟨front.count '\n' + 1, (lastLine front).length + 1⟩
      ⟨(front ++ middle).count '\n' + 1, (lastLine (front ++ middle)).length + 1⟩ := by
  rw [List.count_append]
  by_cases h : '\n' ∈ middle
  · have := List.count_pos_iff.mpr h
    exact .inl (by dsimp only; omega)
  · rw [List.count_eq_zero_of_not_mem h, lastLine_append front h, List.length_append]
    have := List.length_pos_iff.mpr hm
    exact .inr ⟨rfl, by dsimp only; omega⟩

theorem position_before {a b : Nat} (ha : s.IsBoundary a) (hb : s.IsBoundary b) (h : a < b) :
    (s.position a).Before (s.position b) := by
  obtain ⟨front, hfront, rfl⟩ := isBoundary_iff.mp ha
  obtain ⟨front', hfront', rfl⟩ := isBoundary_iff.mp hb
  obtain ⟨middle, hm, rfl⟩ := exists_between hfront hfront' h
  rw [position_eq, position_eq, before_byteCount hfront, before_byteCount hfront']
  exact before_append hm

/-- The position of an offset gives the last boundary up to it: the bytes of the lines in front and of their
newlines, and those of the characters that stand in front on the same line. -/
theorem position_floor (s : Source) (o : Nat) :
    ∃ l c line, s.position o = ⟨l + 1, c + 1⟩ ∧ s.lines[l]? = some line ∧ c ≤ line.length ∧
      s.IsFloor o (byteCount (s.lines.take l).flatten + l + byteCount (line.take c)) := by
  obtain ⟨rest, htext⟩ := s.before_isPrefix o
  obtain ⟨before, lines, hlines, hlength, hbytes⟩ := splitOn_front (s.before o) rest
  refine ⟨before.length, (lastLine (s.before o)).length,
    lastLine (s.before o) ++ rest.takeWhile (· ≠ '\n'), ?_, ?_, ?_, ?_⟩
  · rw [position_eq, hlength]
  · rw [Source.lines, hlength, ← htext]
    exact getElem?_splitOn ..
  · rw [List.length_append]
    exact Nat.le_add_right _ _
  · rw [Source.lines, ← htext, hlines, List.take_left, List.take_left, ← hbytes]
    exact s.isFloor_before o

/-- Positions are coordinates: each gives the last boundary up to its offset, as the bytes in front of its line and
of the characters in front of it on this line; so those of boundaries are in the order of these, and no two
boundaries have the same. -/
theorem position_faithful (s : Source) :
    (∀ o, ∃ l c line, s.position o = ⟨l + 1, c + 1⟩ ∧ s.lines[l]? = some line ∧ c ≤ line.length ∧
      s.IsFloor o (byteCount (s.lines.take l).flatten + l + byteCount (line.take c))) ∧
    (∀ a b, s.IsBoundary a → s.IsBoundary b → a < b → (s.position a).Before (s.position b)) ∧
    ∀ a b, s.IsBoundary a → s.IsBoundary b → s.position a = s.position b → a = b := by
  refine ⟨s.position_floor, fun a b ha hb => position_before ha hb, fun a b ha hb h => ?_⟩
  rcases Nat.lt_trichotomy a b with hlt | heq | hlt
  · exact absurd h (position_before ha hb hlt).ne
  · exact heq
  · exact absurd h.symm (position_before hb ha hlt).ne

/-- An offset inside of a character, boundaries on both sides of a newline, and an offset beyond the end. -/
theorem position_faithful_accent :
    let s : Source := ⟨0, "unit.st", "é\nab"⟩
    s.position 1 = ⟨1, 1⟩ ∧ s.IsFloor 1 0 ∧ s.position 9 = ⟨2, 3⟩ ∧ s.IsFloor 9 5 ∧
      s.IsBoundary 2 ∧ s.IsBoundary 4 ∧ (s.position 2).Before (s.position 4) ∧
      (s.position 4 = s.position 2 → 4 = 2) := by
  intro s
  have floor {o l c b : Nat} (ho : s.position o = ⟨l + 1, c + 1⟩) (hb : ∀ line, s.lines[l]? = some line →
      byteCount (s.lines.take l).flatten + l + byteCount (line.take c) = b) : s.IsFloor o b := by
    obtain ⟨l', c', line, hposition, hline, _, hfloor⟩ := s.position_faithful.1 o
    obtain ⟨rfl, rfl⟩ : l' = l ∧ c' = c := by simpa [ho] using hposition.symm
    exact hb line hline ▸ hfloor
  have lines : s.lines = [['é'], ['a', 'b']] := by decide
  have inside : s.position 1 = ⟨1, 1⟩ := by decide
  have beyond : s.position 9 = ⟨2, 3⟩ := by decide
  have two : s.IsBoundary 2 := isBoundary_iff.mpr ⟨['é'], ⟨['\n', 'a', 'b'], by decide⟩, by decide⟩
  have four : s.IsBoundary 4 := isBoundary_iff.mpr ⟨['é', '\n', 'a'], ⟨['b'], by decide⟩, by decide⟩
  refine ⟨inside, floor inside ?_, beyond, floor beyond ?_, two, four, ?_, ?_⟩
  · rw [lines]
    rintro _ ⟨⟩
    rfl
  · rw [lines]
    rintro _ ⟨⟩
    rfl
  · exact s.position_faithful.2.1 2 4 two four (by decide)
  · exact s.position_faithful.2.2 4 2 four two

end Source
end OnePass
