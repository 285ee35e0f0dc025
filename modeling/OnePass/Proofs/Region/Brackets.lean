import OnePass.Proofs.Region.Streams

/-!
Where what is carved out of a region ends. Between two delimiters that is at the first place where as many have been
closed as were opened; before a terminator, at the first one that is in no brackets of any sort. Both are said here by
the tokens that are seen, without comments and without the scan that looks for them: there is one way at most to
take the tokens apart so, and carving succeeds exactly if there is one.
-/

namespace OnePass

open Token (Kind)

namespace Region

/-! ### Delimiters -/

/-- How many of the tokens are of a kind. -/
def count (k : Kind) (ts : List Token) : Nat := ts.countP fun t => decide (t.kind = k)

/-- As many delimiters are closed as are opened, and none before it is opened. -/
structure Balanced (o c : Kind) (ts : List Token) : Prop where
  total : count o ts = count c ts
  fronts : ∀ front, front <+: ts → count c front ≤ count o front

/-- The tokens `A` begin with a delimiter that `closing` closes; `B` stands between the two and `R` behind them. -/
structure Delimits (o c : Kind) (A : List Token) (opening : Token) (B : List Token) (closing : Token)
    (R : List Token) : Prop where
  split : A = opening :: (B ++ closing :: R)
  opens : opening.kind = o
  closes : closing.kind = c
  balanced : Balanced o c B

/-- The tokens close `depth` delimiters that were open before them, the last of these at the end. -/
structure Lowers (o c : Kind) (depth : Nat) (ts : List Token) : Prop where
  total : count c ts = count o ts + depth
  fronts : ∀ front, front <+: ts → count c front ≤ count o front + depth

variable {o c k : Kind} {depth : Nat} {ts B R : List Token} {t x : Token}

theorem balanced_iff_lowers : Balanced o c B ↔ Lowers o c 0 B :=
  ⟨fun h => ⟨h.total.symm, h.fronts⟩, fun h => ⟨h.total.symm, h.fronts⟩⟩

theorem lowers_nil_iff : Lowers o c depth [] ↔ depth = 0 := by
  constructor
  · intro h
    have := h.total
    simp only [count, List.countP_nil] at this
    omega
  · rintro rfl
    exact balanced_iff_lowers.mp ⟨rfl, fun front h => List.prefix_nil.mp h ▸ Nat.le_refl _⟩

theorem count_cons (k : Kind) (x : Token) (ts : List Token) :
    count k (x :: ts) = count k ts + if x.kind = k then 1 else 0 := by
  simp only [count, List.countP_cons, decide_eq_true_eq]

/-- What the tokens behind the first have to close, where the first opens `up` delimiters and closes `down`. -/
theorem Lowers.cons_iff (up down : Nat) {d : Nat} (hup : count o [x] = up) (hdown : count c [x] = down)
    (hd : d + down = depth + up) : Lowers o c depth (x :: B) ↔ Lowers o c d B := by
  have opened (ts : List Token) : count o (x :: ts) = count o ts + up := by
    rw [count_cons, ← hup, count_cons]
    simp [count]
  have closed (ts : List Token) : count c (x :: ts) = count c ts + down := by
    rw [count_cons, ← hdown, count_cons]
    simp [count]
  constructor
  · intro h
    refine ⟨?_, fun front hfront => ?_⟩
    · have := h.total
      rw [opened, closed] at this
      omega
    · have := h.fronts (x :: front) (List.cons_prefix_cons.mpr ⟨rfl, hfront⟩)
      rw [opened, closed] at this
      omega
  · intro h
    refine ⟨?_, fun front hfront => ?_⟩
    · rw [opened, closed]
      have := h.total
      omega
    · rcases List.prefix_cons_iff.mp hfront with rfl | ⟨later, rfl, hlater⟩
      · exact Nat.zero_le _
      · rw [opened, closed]
        have := h.fronts later hlater
        omega

theorem lowers_opening (hne : o ≠ c) (hx : x.kind = o) : Lowers o c depth (x :: B) ↔ Lowers o c (depth + 1) B :=
  Lowers.cons_iff 1 0 (by simp [count, hx]) (by simp [count, hx, hne]) rfl

theorem lowers_closing (hne : o ≠ c) (hx : x.kind = c) : Lowers o c (depth + 1) (x :: B) ↔ Lowers o c depth B :=
  Lowers.cons_iff 0 1 (by simp [count, hx, hne.symm]) (by simp [count, hx]) rfl

theorem lowers_other (ho : x.kind ≠ o) (hc : x.kind ≠ c) : Lowers o c depth (x :: B) ↔ Lowers o c depth B :=
  Lowers.cons_iff 0 0 (by simp [count, ho]) (by simp [count, hc]) rfl

/-- Where nothing is open, nothing can be closed. -/
theorem not_lowers_closing (hne : o ≠ c) (hx : x.kind = c) : ¬Lowers o c 0 (x :: B) := by
  intro h
  have := h.fronts [x] (List.cons_prefix_cons.mpr ⟨rfl, List.nil_prefix⟩)
  simp [count, hx, hne.symm] at this

/-- A scan that has passed one more token. -/
theorem map_passing_eq_some_iff {found : Option (List Token × Token × List Token)} :
    found.map (passing x) = some (B, t, R) ↔ ∃ B', B = x :: B' ∧ found = some (B', t, R) := by
  rw [Option.map_eq_some_iff]
  constructor
  · rintro ⟨⟨B', t', R'⟩, rfl, h⟩
    cases h
    exact ⟨B', rfl, rfl⟩
  · rintro ⟨B', rfl, rfl⟩
    exact ⟨_, rfl, rfl⟩

/-- The scan finds the token that closes the last delimiter that is open, and no other. -/
theorem splitClosing_eq_some_iff (hne : o ≠ c) :
    splitClosing o c depth ts = some (B, t, R) ↔ ts = B ++ t :: R ∧ t.kind = c ∧ Lowers o c depth B := by
  induction ts generalizing depth B with
  | nil => simp [splitClosing]
  | cons x ts ih =>
      -- a token that closes nothing is passed, and there is less or more to be closed behind it
      have pass {d : Nat} (hd : ∀ B, Lowers o c depth (x :: B) ↔ Lowers o c d B)
          (hx : x.kind = c → depth ≠ 0) : (splitClosing o c d ts).map (passing x) = some (B, t, R) ↔
          x :: ts = B ++ t :: R ∧ t.kind = c ∧ Lowers o c depth B := by
        rw [map_passing_eq_some_iff]
        constructor
        · rintro ⟨B, rfl, h⟩
          obtain ⟨rfl, ht, hB⟩ := ih.mp h
          exact ⟨rfl, ht, (hd B).mpr hB⟩
        · rintro ⟨hts, ht, hB⟩
          cases B with
          | nil =>
              obtain ⟨rfl, rfl⟩ := List.cons.inj hts
              exact absurd (lowers_nil_iff.mp hB) (hx ht)
          | cons y B =>
              obtain ⟨rfl, rfl⟩ := List.cons.inj hts
              exact ⟨B, rfl, ih.mpr ⟨rfl, ht, (hd B).mp hB⟩⟩
      rw [splitClosing_cons]
      split
      · rename_i hx
        exact pass (fun _ => lowers_opening hne hx) fun hc => absurd (hx.symm.trans hc) hne
      · rename_i ho
        split
        · rename_i hx
          cases depth with
          | zero =>
              constructor
              · rintro ⟨⟩
                exact ⟨rfl, hx, lowers_nil_iff.mpr rfl⟩
              · rintro ⟨hts, ht, hB⟩
                cases B with
                | nil =>
                    obtain ⟨rfl, rfl⟩ := List.cons.inj hts
                    rfl
                | cons y B =>
                    obtain ⟨rfl, rfl⟩ := List.cons.inj hts
                    exact absurd hB (not_lowers_closing hne hx)
          | succ depth => exact pass (fun _ => lowers_closing hne hx) fun _ => Nat.succ_ne_zero _
        · rename_i hc
          exact pass (fun _ => lowers_other ho hc) fun hx => absurd hx hc

theorem Delimits.split_eq {A : List Token} {u : Token} (hne : o ≠ c) (h : Delimits o c A t B u R)
    (hts : ts = B ++ u :: R) : splitClosing o c 0 ts = some (B, u, R) :=
  (splitClosing_eq_some_iff hne).mpr ⟨hts, h.closes, balanced_iff_lowers.mp h.balanced⟩

/-- There is one way at most to take tokens apart at a pair of delimiters. -/
theorem Delimits.unique {A B' R' : List Token} {t' u u' : Token} (hne : o ≠ c) (h : Delimits o c A t B u R)
    (h' : Delimits o c A t' B' u' R') : B' = B ∧ u' = u ∧ R' = R := by
  obtain ⟨_, same⟩ := List.cons.inj (h'.split.symm.trans h.split)
  have first : splitClosing o c 0 (B ++ u :: R) = some (B, u, R) := h.split_eq hne rfl
  have second : splitClosing o c 0 (B ++ u :: R) = some (B', u', R') := h'.split_eq hne same.symm
  cases first.symm.trans second
  exact ⟨rfl, rfl, rfl⟩

/-! ### Terminators -/

/-- The depth in brackets behind a token: brackets of all three sorts count, and one too many closes nothing. -/
def nesting (depth : Nat) (k : Kind) : Nat :=
  if k ∈ [Kind.leftParen, .leftBrace, .leftBracket] then depth + 1
  else if k ∈ [Kind.rightParen, .rightBrace, .rightBracket] then depth - 1
  else depth

/-- The depth in brackets at the end of some tokens, where `depth` have been opened before them. -/
def nestingFrom (depth : Nat) (ts : List Token) : Nat := ts.foldl (fun d t => nesting d t.kind) depth

/-- The tokens `A` have a terminator `t` that is in no brackets, and there is none in `B` in front of it. -/
structure Terminates (k : Kind) (A B : List Token) (t : Token) (R : List Token) : Prop where
  split : A = B ++ t :: R
  ends : t.kind = k
  level : nestingFrom 0 B = 0
  first : ∀ front u, front ++ [u] <+: B → u.kind = k → nestingFrom 0 front ≠ 0

/-- As in `Terminates`, with brackets open before. -/
structure Levels (k : Kind) (depth : Nat) (B : List Token) : Prop where
  level : nestingFrom depth B = 0
  first : ∀ front u, front ++ [u] <+: B → u.kind = k → nestingFrom depth front ≠ 0

theorem depthAfter_eq (depth : Nat) (k : Kind) : depthAfter depth k = nesting depth k := by
  cases k <;> rfl

theorem levels_nil_iff : Levels k depth [] ↔ depth = 0 := by
  constructor
  · exact fun h => h.level
  · intro h
    refine ⟨h, fun front u hu => ?_⟩
    simp at hu

theorem levels_cons_iff : Levels k depth (x :: B) ↔ ¬(x.kind = k ∧ depth = 0) ∧ Levels k (nesting depth x.kind) B := by
  constructor
  · intro h
    refine ⟨?_, h.level, fun front u hfront hu => ?_⟩
    · rintro ⟨hx, hdepth⟩
      exact h.first [] x (List.cons_prefix_cons.mpr ⟨rfl, List.nil_prefix⟩) hx hdepth
    · exact h.first (x :: front) u (List.cons_prefix_cons.mpr ⟨rfl, hfront⟩) hu
  · rintro ⟨hx, h⟩
    refine ⟨h.level, fun front u hfront hu => ?_⟩
    cases front with
    | nil =>
        obtain ⟨rfl, _⟩ := List.cons_prefix_cons.mp hfront
        exact fun hdepth => hx ⟨hu, hdepth⟩
    | cons y front =>
        obtain ⟨rfl, hlater⟩ := List.cons_prefix_cons.mp hfront
        exact h.first front u hlater hu

/-- The scan finds the first terminator that is in no brackets, and no other. -/
theorem splitTerminator_eq_some_iff :
    splitTerminator k depth ts = some (B, t, R) ↔ ts = B ++ t :: R ∧ t.kind = k ∧ Levels k depth B := by
  induction ts generalizing depth B with
  | nil => simp [splitTerminator]
  | cons x ts ih =>
      rw [splitTerminator_cons, depthAfter_eq]
      split
      · rename_i hx
        constructor
        · rintro ⟨⟩
          exact ⟨rfl, hx.1, levels_nil_iff.mpr hx.2⟩
        · rintro ⟨hts, ht, hB⟩
          cases B with
          | nil =>
              obtain ⟨rfl, rfl⟩ := List.cons.inj hts
              rfl
          | cons y B =>
              obtain ⟨rfl, rfl⟩ := List.cons.inj hts
              exact absurd hx (levels_cons_iff.mp hB).1
      · rename_i hx
        rw [map_passing_eq_some_iff]
        constructor
        · rintro ⟨B, rfl, h⟩
          obtain ⟨rfl, ht, hB⟩ := ih.mp h
          exact ⟨rfl, ht, levels_cons_iff.mpr ⟨hx, hB⟩⟩
        · rintro ⟨hts, ht, hB⟩
          cases B with
          | nil =>
              obtain ⟨rfl, rfl⟩ := List.cons.inj hts
              exact absurd ⟨ht, levels_nil_iff.mp hB⟩ hx
          | cons y B =>
              obtain ⟨rfl, rfl⟩ := List.cons.inj hts
              exact ⟨B, rfl, ih.mpr ⟨rfl, ht, (levels_cons_iff.mp hB).2⟩⟩

/-! ### Carving -/

section Carving

variable {r : Region} {u : Token}

/-- What stands between two delimiters, by the tokens that are seen. -/
theorem delimits_of_enclosed (hs : settle r.ahead = r.ahead) (hne : o ≠ c) (ho : o ≠ .comment) (hc : c ≠ .comment)
    {inner rest : Region} (he : r.enclosed o c = (.ok inner, rest)) :
    ∃ t u, Delimits o c r.pending t inner.pending u rest.pending := by
  obtain ⟨t, ts, inside, u, after, ha, ht, hsplit, rfl, rfl⟩ := enclosed_eq_ok he
  have seen := splitClosing_significant ho hc 0 (settle ts)
  rw [hsplit, significant_settle] at seen
  obtain ⟨hts, hu, hB⟩ := (splitClosing_eq_some_iff hne).mp seen
  refine ⟨t, u, ?_, ht, hu, ?_⟩
  · rw [pending_cons hs ha, pending_window, pending_past, hts]
  · rw [pending_window]
    exact balanced_iff_lowers.mpr hB

theorem enclosed_of_delimits (hs : settle r.ahead = r.ahead) (hne : o ≠ c) (ho : o ≠ .comment) (hc : c ≠ .comment)
    (h : Delimits o c r.pending t B u R) :
    ∃ inner rest, r.enclosed o c = (.ok inner, rest) ∧ inner.pending = B ∧ rest.pending = R ∧
      rest.last = u.span := by
  cases ha : r.ahead with
  | nil => cases ((pending_eq_nil_iff hs).mpr ha).symm.trans h.split
  | cons x ts =>
      obtain ⟨rfl, hts⟩ := List.cons.inj ((pending_cons hs ha).symm.trans h.split)
      have seen := splitClosing_significant ho hc 0 (settle ts)
      rw [significant_settle, h.split_eq hne hts] at seen
      obtain ⟨⟨inside, u', after⟩, hsplit, hfound⟩ := Option.map_eq_some_iff.mp seen.symm
      cases hfound
      have head : r.headIs o = true := by simp [headIs, Region.head, ha, h.opens]
      have carved : r.enclosed o c =
          (.ok ((r.behind x ts).window inside (u :: after)), (r.behind x ts).past inside u after) := by
        simp only [enclosed, expect, expectOr, if_pos head, next, ha, behind, hsplit]
      exact ⟨_, _, carved, pending_window _ _, pending_past _ _ _, rfl⟩

/-- What stands before a terminator, by the tokens that are seen. -/
theorem terminates_of_upTo (hk : k ≠ .comment) {inner : Option Region} {rest : Region}
    (hu : r.upTo k = (.ok inner, rest)) : ∃ B t, Terminates k r.pending B t rest.pending := by
  obtain ⟨inside, t, after, hsplit, _, rfl⟩ := upTo_eq_ok hu
  have seen := splitTerminator_significant hk 0 r.ahead
  rw [hsplit] at seen
  obtain ⟨hts, ht, hB⟩ := splitTerminator_eq_some_iff.mp seen
  refine ⟨significant inside, t, ?_, ht, hB.level, hB.first⟩
  rw [pending_past]
  exact hts

theorem upTo_of_terminates (hs : settle r.ahead = r.ahead) (hk : k ≠ .comment) (h : Terminates k r.pending B t R) :
    ∃ inner rest, r.upTo k = (.ok inner, rest) ∧ (inner = none ↔ B = []) ∧ (∀ i, inner = some i → i.pending = B) ∧
      rest.pending = R := by
  have seen : splitTerminator k 0 r.pending = _ := splitTerminator_significant hk 0 r.ahead
  rw [splitTerminator_eq_some_iff.mpr ⟨h.split, h.ends, h.level, h.first⟩] at seen
  obtain ⟨⟨inside, t', after⟩, hsplit, hfound⟩ := Option.map_eq_some_iff.mp seen.symm
  cases hfound
  have ha : inside ++ t :: after = r.ahead := splitTerminator_append hsplit
  have hnone : significant inside = [] ↔ inside = [] := by
    cases inside with
    | nil => simp [significant]
    | cons x inside => simp [significant_cons (isComment_of_settle (ha ▸ hs))]
  refine ⟨_, _, by rw [upTo, hsplit], ?_, ?_, pending_past _ _ _⟩
  · simp [hnone]
  · intro i hi
    split at hi
    · cases hi
    · exact Option.some.inj hi ▸ pending_window _ _

end Carving

/-- Carving is exact and loses nothing. There is something between two delimiters exactly if the tokens that are seen
can be taken apart at them, which they can in one way at most: carving yields what is between the two and leaves what
is behind. There is something before a terminator exactly if the tokens can be taken apart at one outside of
brackets, and again carving yields the tokens in front and leaves those behind. -/
theorem reached_carves {source : Source} {tokens : List Token} {r : Region} (h : Reached source tokens r) :
    (∀ o c, o ≠ c → o ≠ .comment → c ≠ .comment →
      ((∃ inner rest, r.enclosed o c = (.ok inner, rest)) ↔ ∃ t B u R, Delimits o c r.pending t B u R) ∧
      ∀ t B u R, Delimits o c r.pending t B u R →
        (∀ t' B' u' R', Delimits o c r.pending t' B' u' R' → B' = B ∧ R' = R) ∧
        ∃ inner rest, r.enclosed o c = (.ok inner, rest) ∧ inner.pending = B ∧ rest.pending = R ∧
          rest.last = u.span) ∧
    ∀ k, k ≠ .comment →
      ((∃ inner rest, r.upTo k = (.ok inner, rest)) ↔ ∃ B t R, Terminates k r.pending B t R) ∧
      ∀ B t R, Terminates k r.pending B t R →
        ∃ inner rest, r.upTo k = (.ok inner, rest) ∧ (inner = none ↔ B = []) ∧
          (∀ i, inner = some i → i.pending = B) ∧ rest.pending = R := by
  have hs := h.settled
  refine ⟨fun o c hne ho hc => ⟨⟨?_, ?_⟩, ?_⟩, fun k hk => ⟨⟨?_, ?_⟩, ?_⟩⟩
  · rintro ⟨inner, rest, he⟩
    obtain ⟨t, u, h⟩ := delimits_of_enclosed hs hne ho hc he
    exact ⟨t, _, u, _, h⟩
  · rintro ⟨t, B, u, R, h⟩
    obtain ⟨inner, rest, he, _⟩ := enclosed_of_delimits hs hne ho hc h
    exact ⟨inner, rest, he⟩
  · intro t B u R h
    refine ⟨fun t' B' u' R' h' => ?_, enclosed_of_delimits hs hne ho hc h⟩
    obtain ⟨hB, _, hR⟩ := h.unique hne h'
    exact ⟨hB, hR⟩
  · rintro ⟨inner, rest, hu⟩
    obtain ⟨B, t, h⟩ := terminates_of_upTo hk hu
    exact ⟨B, t, _, h⟩
  · rintro ⟨B, t, R, h⟩
    obtain ⟨inner, rest, hu, _⟩ := upTo_of_terminates hs hk h
    exact ⟨inner, rest, hu⟩
  · exact fun B t R h => upTo_of_terminates hs hk h

/-- Parentheses in parentheses, and a bracket between them that nothing opens. -/
theorem reached_carves_nested :
    let token (kind : Kind) (start : Nat) : Token := ⟨kind, "", .ofLength start 1 0⟩
    let tokens := [token .leftParen 0, token .leftParen 1, token .comment 2, token .rightBracket 5, token .rightParen 6,
      token .rightParen 7, token .semicolon 8]
    let whole := ofTokens ⟨0, "hand.st", "((//\n]));"⟩ tokens
    Reached ⟨0, "hand.st", "((//\n]));"⟩ tokens whole ∧
      ∃ inner rest, whole.enclosed .leftParen .rightParen = (.ok inner, rest) ∧
        inner.pending = [token .leftParen 1, token .rightBracket 5, token .rightParen 6] ∧
        rest.pending = [token .semicolon 8] ∧ rest.last = (token .rightParen 7).span := by
  intro token tokens whole
  have balanced : Balanced .leftParen .rightParen
      [token .leftParen 1, token .rightBracket 5, token .rightParen 6] := by
    refine balanced_iff_lowers.mpr (Iff.mpr (lowers_opening (by decide) rfl) ?_)
    refine Iff.mpr (lowers_other (by decide) (by decide)) ?_
    exact Iff.mpr (lowers_closing (by decide) rfl) (lowers_nil_iff.mpr rfl)
  exact ⟨.whole, (((reached_carves .whole).1 _ _ (by decide) (by decide) (by decide)).2 (token .leftParen 0) _
    (token .rightParen 7) _ ⟨rfl, rfl, rfl, balanced⟩).2⟩

end Region
end OnePass
