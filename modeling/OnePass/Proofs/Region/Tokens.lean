import OnePass.Proofs.Success
import OnePass.Region.Step

/-!
Where what is read stands. A region is a window on a list of tokens: what is ahead of it ends in front of
some place `hi` of the list, so the next token has a place, and so has every token that is read. What is
carved out of a region ends where the region goes on.
-/

namespace OnePass

open Token (Kind)

/-- What is known of the tokens that are read. -/
structure View where
  token : Token → Prop
  tokens : List Token
  known : ∀ t ∈ tokens, token t
  /-- What is known once the tokens in front of a place have been read. -/
  past : Nat → Prop
  mono : ∀ {p q : Nat}, p ≤ q → past p → past q

/-- The last token in front of a place; comments do not count. -/
def tokenBefore? (ts : List Token) (p : Nat) : Option Token := (Region.significant (ts.take p)).getLast?

/-- The span begins with a token that stands at the place `p` or behind it. -/
def Span.Begins (span : Span) (ts : List Token) (p : Nat) : Prop :=
  ∃ i t, p ≤ i ∧ ts[i]? = some t ∧ span.start = t.span.start

theorem Span.Begins.mono {span : Span} {ts : List Token} {p q : Nat} (h : span.Begins ts q) (hle : p ≤ q) :
    span.Begins ts p :=
  let ⟨i, t, hi, ht⟩ := h
  ⟨i, t, Nat.le_trans hle hi, ht⟩

theorem Span.Begins.merge {a b : Span} {ts : List Token} {p : Nat} (ha : a.Begins ts p)
    (hb : b.Begins ts p) : (a.merge b).Begins ts p := by
  obtain ⟨i, t, hi, ht, hstart⟩ := ha
  obtain ⟨j, u, hj, hu, hstart'⟩ := hb
  rcases Nat.le_total a.start b.start with h | h
  · exact ⟨i, t, hi, ht, (Nat.min_eq_left h).trans hstart⟩
  · exact ⟨j, u, hj, hu, (Nat.min_eq_right h).trans hstart'⟩

namespace Region

theorem settle_suffix (ts : List Token) : settle ts <:+ ts := List.dropWhile_suffix _

theorem significant_settle (ts : List Token) : significant (settle ts) = significant ts := by
  unfold settle significant
  induction ts with
  | nil => rfl
  | cons t ts ih =>
      rw [List.dropWhile_cons]
      split
      · rename_i hc
        rw [ih, List.filter_cons_of_neg (by simp [hc])]
      · rfl

/-- The place of the next token, where the region ends in front of `hi`. -/
def front (r : Region) (hi : Nat) : Nat := hi - r.size

/-- The region is a window on the tokens, and what is in front of it has been read. -/
structure Faces (V : View) (hi : Nat) (r : Region) : Prop where
  bound : hi ≤ V.tokens.length
  window : r.ahead <:+ V.tokens.take hi
  past : V.past (r.front hi)

/-- A token of the kind asked for was read from the place `i`. -/
def Took {r : Region} (V : View) (hi : Nat) (k : Kind) (i : Nat) (s : Step r Token) : Prop :=
  s.1.kind = k ∧ V.tokens[i]? = some s.1 ∧ s.2.Faces V hi

/-- The region goes on behind the place `mid`, whatever has become known there. -/
def Resumes (V : View) (mid hi : Nat) (r : Region) : Prop :=
  ∀ {V' : View}, V'.tokens = V.tokens → V'.past mid → r.Faces V' hi

/-- What was carved out of a region begins behind a token of the kind `o` and ends at `mid`, and there the
region goes on. -/
structure Carved (V : View) (o : Kind) (mid hi : Nat) (r : Region) (s : Left r × Left r) : Prop where
  inner : s.1.Faces V mid
  inner_front : r.front hi ≤ s.1.front mid
  opened : o ≠ .comment → ∃ t, tokenBefore? V.tokens (s.1.front mid) = some t ∧ t.kind = o
  resumes : s.2.Resumes V mid hi
  begins : s.2.last.Begins V.tokens (r.front hi)

variable {V : View} {hi : Nat} {r : Region} {k : Kind}

/-! ### Single tokens -/

theorem accept?_eq_some {t : Token} {l : Left r} (ha : r.accept? k = some (t, l)) :
    t.kind = k ∧ l.last = t.span ∧ ∃ ts, r.ahead = t :: ts ∧ l.ahead = settle ts := by
  obtain ⟨hn, hk⟩ := Option.filter_eq_some_iff.mp ha
  unfold next? at hn
  split at hn
  · cases hn
  · rename_i first ts ahead
    obtain ⟨rfl, rfl⟩ := Prod.mk.inj (Option.some.inj hn)
    exact ⟨by simpa using hk, rfl, ts, ahead, rfl⟩

/-- A token that is read is the first that is no comment. -/
theorem accept?_pending (hk : k ≠ .comment) {t : Token} {l : Left r} (ha : r.accept? k = some (t, l)) :
    r.pending = t :: l.pending := by
  obtain ⟨rfl, _, ts, ahead, rest⟩ := accept?_eq_some ha
  have plain : t.isComment = false := by simpa [Token.isComment] using hk
  rw [pending, pending, ahead, rest, significant_settle, significant, List.filter_cons_of_pos (by simp [plain])]
  rfl

theorem accept?_of_takeOr {fault : Fault} {s : Step r Token} (ht : r.takeOr k fault = .ok s) :
    r.accept? k = some s := by
  unfold takeOr at ht
  split at ht
  · rename_i ha
    exact ha.trans (congrArg some (Except.ok.inj ht))
  · cases ht

theorem enclosed_eq_ok {o c : Kind} {inner rest : Region} (he : r.enclosed o c = (.ok inner, rest)) :
    ∃ t ts inside close after, r.ahead = t :: ts ∧ t.kind = o ∧
      splitClosing o c 0 (settle ts) = some (inside, close, after) ∧
      inner = (r.behind t ts).window inside (close :: after) ∧
      rest = (r.behind t ts).past inside close after := by
  unfold enclosed expect expectOr at he
  by_cases hk : r.headIs o
  · rw [if_pos hk] at he
    cases ahead : r.ahead with
    | nil => simp [next, ahead, splitClosing] at he
    | cons t ts =>
        have head : t.kind = o := by simpa [headIs, head, ahead] using hk
        simp only [next, ahead] at he
        split at he
        · cases he
        · rename_i inside close after hs
          obtain ⟨hi, rfl⟩ := Prod.mk.inj he
          exact ⟨t, ts, inside, close, after, rfl, head, hs, (Except.ok.inj hi).symm, rfl⟩
  · rw [if_neg hk] at he
    cases he

theorem upTo_eq_ok {inner : Option Region} {rest : Region} (hu : r.upTo k = (.ok inner, rest)) :
    ∃ inside t after, splitTerminator k 0 r.ahead = some (inside, t, after) ∧
      inner = (if inside.isEmpty then none else some (r.window inside (t :: after))) ∧
      rest = r.past inside t after := by
  unfold upTo at hu
  split at hu
  · cases hu
  · rename_i inside t after hs
    obtain ⟨hi, rfl⟩ := Prod.mk.inj hu
    exact ⟨inside, t, after, hs, (Except.ok.inj hi).symm, rfl⟩

/-! ### Windows -/

namespace Faces

theorem size_le (h : r.Faces V hi) : r.size ≤ hi := by
  have := h.window.length_le
  rw [List.length_take] at this
  exact Nat.le_trans this (Nat.min_le_left _ _)

theorem known (h : r.Faces V hi) : ∀ t ∈ r.ahead, V.token t :=
  fun _ ht => V.known _ (List.mem_of_mem_take (h.window.mem ht))

/-- At the end of a region, all in front of that end has been read. -/
theorem done (h : r.Faces V hi) : V.past hi := V.mono (Nat.sub_le _ _) h.past

theorem ofSuffix (h : r.Faces V hi) {r' : Region} (hs : r'.ahead <:+ r.ahead) : r'.Faces V hi :=
  ⟨h.bound, hs.trans h.window, V.mono (Nat.sub_le_sub_left hs.length_le hi) h.past⟩

theorem take_eq (h : r.Faces V hi) : V.tokens.take hi = V.tokens.take (r.front hi) ++ r.ahead := by
  have ahead := List.suffix_iff_eq_drop.mp h.window
  rw [List.length_take, Nat.min_eq_left h.bound] at ahead
  calc V.tokens.take hi
      = (V.tokens.take hi).take (r.front hi) ++ (V.tokens.take hi).drop (r.front hi) :=
        (List.take_append_drop _ _).symm
    _ = V.tokens.take (r.front hi) ++ r.ahead := by
        rw [List.take_take, Nat.min_eq_left (show r.front hi ≤ hi from Nat.sub_le _ _), ahead]
        rfl

theorem length_take_front (h : r.Faces V hi) : (V.tokens.take (r.front hi)).length = r.front hi := by
  rw [List.length_take, Nat.min_eq_left]
  exact Nat.le_trans (Nat.sub_le _ _) h.bound

/-- What is read between two regions stands among the tokens in front of the second. -/
theorem between (h : r.Faces V hi) {r' : Region} (h' : r'.Faces V hi) (hle : r.front hi ≤ r'.front hi) :
    ∃ run, run <:+: V.tokens.take (r'.front hi) ∧ r.ahead = run ++ r'.ahead := by
  have split : V.tokens.take (r.front hi) ++ (V.tokens.take (r'.front hi)).drop (r.front hi) =
      V.tokens.take (r'.front hi) := by
    conv_rhs => rw [← List.take_append_drop (r.front hi) (V.tokens.take (r'.front hi))]
    rw [List.take_take, Nat.min_eq_left hle]
  refine ⟨_, (List.drop_suffix (r.front hi) _).isInfix, ?_⟩
  have whole := h.take_eq.symm.trans h'.take_eq
  rw [← split, List.append_assoc] at whole
  exact List.append_cancel_left whole

/-- Places are counted from the front of a region. -/
theorem place (h : r.Faces V hi) {inside after : List Token} {t : Token}
    (ha : r.ahead = inside ++ t :: after) : V.tokens[r.front hi + inside.length]? = some t := by
  have hsize : r.size = inside.length + (after.length + 1) := by simp [size, ha]
  have hlt : r.front hi + inside.length < hi := by
    have := h.size_le
    unfold front
    omega
  rw [← List.getElem?_take_of_lt hlt, h.take_eq, ha, List.getElem?_append_right
    (by rw [h.length_take_front]; exact Nat.le_add_right _ _), h.length_take_front,
    Nat.add_sub_cancel_left, List.getElem?_append_right (Nat.le_refl _), Nat.sub_self]
  rfl

/-- What stands in front of a token of the region is a region that ends at the place of the token. -/
theorem inside (h : r.Faces V hi) {inside after : List Token} {t : Token}
    (ha : r.ahead = inside ++ t :: after) (inner : Region) (hinner : inner.ahead <:+ inside) :
    inner.Faces V (r.front hi + inside.length) ∧
      r.front hi ≤ inner.front (r.front hi + inside.length) := by
  have hlt := (List.getElem?_eq_some_iff.mp (h.place ha)).1
  have hle := hinner.length_le
  have hfront : r.front hi ≤ inner.front (r.front hi + inside.length) := by
    simp only [front, size] at hle ⊢
    omega
  refine ⟨⟨Nat.le_of_lt hlt, ?_, V.mono hfront h.past⟩, hfront⟩
  have hsize : r.size = inside.length + (after.length + 1) := by simp [size, ha]
  have hmid : r.front hi + inside.length ≤ hi := by
    have := h.size_le
    unfold front
    omega
  have whole := congrArg (List.take (r.front hi + inside.length)) h.take_eq
  rw [List.take_take, Nat.min_eq_left hmid, ha, ← List.append_assoc,
    List.take_left' (by rw [List.length_append, h.length_take_front])] at whole
  rw [whole]
  exact hinner.trans (List.suffix_append _ _)

/-- Behind a token the region goes on. -/
theorem behind (h : r.Faces V hi) {inside after : List Token} {t : Token}
    (ha : r.ahead = inside ++ t :: after) {rest : Region} (hrest : rest.ahead <:+ after) :
    rest.Resumes V (r.front hi + inside.length) hi := by
  intro V' hV hpast
  have hsuffix : rest.ahead <:+ r.ahead :=
    ha ▸ hrest.trans ((List.suffix_cons t after).trans (List.suffix_append inside _))
  refine ⟨hV ▸ h.bound, hV ▸ hsuffix.trans h.window, V'.mono ?_ hpast⟩
  have hsize : r.size = inside.length + (after.length + 1) := by simp [size, ha]
  have hle := h.size_le
  have hlen := hrest.length_le
  simp only [front, size] at hsize hle hlen ⊢
  omega

theorem ofTokens {source : Source} (h : V.past 0) :
    (Region.ofTokens source V.tokens).Faces V (V.tokens.takeWhile (·.kind ≠ .eof)).length where
  bound := (List.takeWhile_prefix _).length_le
  window := by
    have := List.prefix_iff_eq_take.mp (List.takeWhile_prefix (l := V.tokens) (·.kind ≠ .eof))
    rw [← this]
    exact settle_suffix _
  past := V.mono (Nat.zero_le _) h

theorem next? (h : r.Faces V hi) {t : Token} {l : Left r} (hn : r.next? = some (t, l)) :
    V.tokens[r.front hi]? = some t ∧ l.Faces V hi := by
  unfold Region.next? at hn
  split at hn
  · cases hn
  · rename_i first ts ha
    obtain ⟨rfl, rfl⟩ := Prod.mk.inj (Option.some.inj hn)
    have place := h.place (show r.ahead = [] ++ first :: ts from ha)
    have suffix : settle ts <:+ r.ahead :=
      ha ▸ (settle_suffix ts).trans (List.suffix_cons first ts)
    exact ⟨place, h.ofSuffix suffix⟩

/-- Comments do not count among what stands in front of a place. -/
theorem before_settle (h : r.Faces V hi) {r' : Region} (ha : r'.ahead = settle r.ahead) :
    tokenBefore? V.tokens (r'.front hi) = tokenBefore? V.tokens (r.front hi) := by
  have h' : r'.Faces V hi := h.ofSuffix (ha ▸ settle_suffix _)
  have whole := h.take_eq.symm.trans h'.take_eq
  have split : r.ahead = r.ahead.takeWhile Token.isComment ++ r'.ahead := by
    rw [ha, settle, List.takeWhile_append_dropWhile]
  rw [split, ← List.append_assoc] at whole
  have comments : (r.ahead.takeWhile Token.isComment).filter (!·.isComment) = [] := by
    refine List.filter_eq_nil_iff.mpr fun t ht => ?_
    simpa using List.all_eq_true.mp List.all_takeWhile t ht
  unfold tokenBefore?
  rw [← List.append_cancel_right whole, significant, List.filter_append, comments, List.append_nil]
  rfl

theorem before_tail (h : r.Faces V hi) {t : Token} {ts : List Token} (ha : r.ahead = t :: ts)
    (plain : t.isComment = false) {r' : Region} (ha' : r'.ahead = ts) :
    tokenBefore? V.tokens (r'.front hi) = some t := by
  have h' : r'.Faces V hi := h.ofSuffix (ha ▸ ha' ▸ List.suffix_cons t ts)
  have whole := h.take_eq.symm.trans h'.take_eq
  rw [ha, ha', List.append_cons] at whole
  unfold tokenBefore?
  rw [← List.append_cancel_right whole, significant, List.filter_append,
    List.filter_cons_of_pos (by simp [plain]), List.filter_nil, List.getLast?_concat]

/-- A token that was read stands in front of what is left. -/
theorem before_behind (h : r.Faces V hi) {t : Token} {ts : List Token} (ha : r.ahead = t :: ts)
    (plain : t.isComment = false) : tokenBefore? V.tokens ((r.behind t ts).front hi) = some t := by
  let tail : Region := { r with ahead := ts }
  have htail : tail.Faces V hi := h.ofSuffix (ha ▸ List.suffix_cons t ts)
  exact (htail.before_settle rfl).trans (h.before_tail ha plain rfl)

theorem before_next? (h : r.Faces V hi) {t : Token} {l : Left r} (hn : r.next? = some (t, l))
    (plain : t.isComment = false) : tokenBefore? V.tokens (l.front hi) = some t := by
  unfold Region.next? at hn
  split at hn
  · cases hn
  · rename_i ha
    obtain ⟨rfl, rfl⟩ := Prod.mk.inj (Option.some.inj hn)
    exact h.before_behind ha plain

theorem accept? (h : r.Faces V hi) {s : Step r Token} (ha : r.accept? k = some s) :
    Took V hi k (r.front hi) s := by
  obtain ⟨hn, hk⟩ := Option.filter_eq_some_iff.mp ha
  exact ⟨by simpa using hk, h.next? hn⟩

theorem before_accept? (h : r.Faces V hi) (hk : k ≠ .comment) {s : Step r Token}
    (ha : r.accept? k = some s) : tokenBefore? V.tokens (s.2.front hi) = some s.1 := by
  obtain ⟨hn, hkind⟩ := Option.filter_eq_some_iff.mp ha
  have kind : s.1.kind = k := by simpa using hkind
  exact h.before_next? hn (by simpa [Token.isComment, kind] using hk)

theorem takeOr (h : r.Faces V hi) {fault : Fault} {s : Step r Token} (ht : r.takeOr k fault = .ok s) :
    Took V hi k (r.front hi) s :=
  h.accept? (accept?_of_takeOr ht)

/-- What is carved out begins behind the opening delimiter. -/
theorem carve (h : r.Faces V hi) {o c : Kind} {s : Left r × Left r} (hc : r.carve o c = .ok s) :
    ∃ mid, Carved V o mid hi r s := by
  unfold Region.carve at hc
  split at hc
  · rename_i inner rest he
    obtain rfl := Except.ok.inj hc
    obtain ⟨t, ts, inside, close, after, ahead, hk, hs, rfl, rfl⟩ := enclosed_eq_ok he
    have hsuffix : settle ts <:+ r.ahead := ahead ▸ (settle_suffix ts).trans (List.suffix_cons t ts)
    have h₁ : (r.behind t ts).Faces V hi := h.ofSuffix hsuffix
    have hfront : r.front hi ≤ (r.behind t ts).front hi := Nat.sub_le_sub_left hsuffix.length_le hi
    have ha : (r.behind t ts).ahead = inside ++ close :: after := (splitClosing_append hs).symm
    let whole : Region := { r with ahead := inside }
    obtain ⟨hinner, hle⟩ := h₁.inside ha ((r.behind t ts).window inside (close :: after))
      (settle_suffix inside)
    refine ⟨_, hinner, Nat.le_trans hfront hle, fun ho => ⟨t, ?_, hk⟩, h₁.behind ha (settle_suffix after),
      ⟨_, close, Nat.le_trans hfront (Nat.le_add_right _ _), h₁.place ha, rfl⟩⟩
    have plain : t.isComment = false := by simpa [Token.isComment, hk] using ho
    have first : whole.front ((r.behind t ts).front hi + inside.length) = (r.behind t ts).front hi :=
      Nat.add_sub_cancel _ _
    calc tokenBefore? V.tokens _
        = tokenBefore? V.tokens (whole.front ((r.behind t ts).front hi + inside.length)) :=
          (h₁.inside ha whole List.suffix_rfl).1.before_settle rfl
      _ = tokenBefore? V.tokens ((r.behind t ts).front hi) := congrArg _ first
      _ = some t := h.before_behind ahead plain
  · cases hc

/-- What stands in front of a terminator, if anything does, ends at its place, and there the region goes on. -/
theorem divide (h : r.Faces V hi) {s : Option (Left r) × Left r} (hd : r.divide k = .ok s) :
    ∃ mid, V.past mid ∧ (∀ l ∈ s.1, l.Faces V mid) ∧ s.2.Resumes V mid hi := by
  have places {inner : Option Region} {rest : Region} (hu : r.upTo k = (.ok inner, rest)) :
      ∃ mid, V.past mid ∧ (∀ i ∈ inner, i.Faces V mid) ∧ rest.Resumes V mid hi := by
    obtain ⟨inside, t, after, hs, hinner, rfl⟩ := upTo_eq_ok hu
    have ha := (splitTerminator_append hs).symm
    refine ⟨_, V.mono (Nat.le_add_right _ _) h.past, ?_, h.behind ha (settle_suffix after)⟩
    rintro i rfl
    split at hinner
    · cases hinner
    · obtain rfl := Option.some.inj hinner
      exact (h.inside ha _ (settle_suffix inside)).1
  unfold Region.divide at hd
  split at hd
  · rename_i hu
    obtain rfl := Except.ok.inj hd
    obtain ⟨mid, hpast, hinner, hrest⟩ := places hu
    exact ⟨mid, hpast, fun l hl => Option.some.inj hl ▸ hinner _ rfl, hrest⟩
  · rename_i hu
    obtain rfl := Except.ok.inj hd
    obtain ⟨mid, hpast, _, hrest⟩ := places hu
    exact ⟨mid, hpast, nofun, hrest⟩
  · cases hd

end Faces

end Region

section Left

variable {V : View} {hi : Nat} {r : Region} {k : Kind}

theorem Left.front_le (l : Left r) (hi : Nat) : r.front hi ≤ l.front hi :=
  Nat.sub_le_sub_left (Nat.le_of_lt l.shorter) hi

theorem Left.front_lt (l : Left r) (h : r.Faces V hi) : r.front hi < l.front hi := by
  have hle := h.size_le
  have hlt := l.shorter
  simp only [Region.front]
  omega

theorem Kept.front_le (l : Kept r) (hi : Nat) : r.front hi ≤ l.front hi :=
  Nat.sub_le_sub_left l.bounded hi

theorem Left.accept?_eq_some {l : Left r} {t : Token} {l' : Left r} (ha : l.accept? k = some (t, l')) :
    ∃ rest, l.toRegion.accept? k = some (t, rest) ∧ l'.toRegion = rest.toRegion := by
  obtain ⟨⟨_, rest⟩, hs, heq⟩ := Option.map_eq_some_iff.mp ha
  obtain ⟨rfl, rfl⟩ := Prod.mk.inj heq
  exact ⟨rest, hs, rfl⟩

namespace Left

variable {l : Left r} (h : l.Faces V hi)

include h

theorem next?_faces {t : Token} {l' : Left r} (hn : l.next? = some (t, l')) : l'.Faces V hi := by
  obtain ⟨⟨_, _⟩, hs, heq⟩ := Option.map_eq_some_iff.mp hn
  cases heq
  exact (h.next? hs).2

theorem accept?_took {s : Step r Token} (ha : l.accept? k = some s) : Region.Took V hi k (l.front hi) s := by
  obtain ⟨s', hs, rfl⟩ := Option.map_eq_some_iff.mp ha
  exact h.accept? hs

theorem before_accept? (hk : k ≠ .comment) {s : Step r Token} (ha : l.accept? k = some s) :
    tokenBefore? V.tokens (s.2.front hi) = some s.1 := by
  obtain ⟨s', hs, rfl⟩ := Option.map_eq_some_iff.mp ha
  exact h.before_accept? hk hs

theorem take_took {s : Step r Token} (ht : l.take k = .ok s) : Region.Took V hi k (l.front hi) s := by
  obtain ⟨s', hs, rfl⟩ := map_eq_ok.mp ht
  exact h.takeOr hs

theorem takeNamed_took {what : String} {s : Step r Token} (ht : l.takeNamed k what = .ok s) :
    Region.Took V hi k (l.front hi) s := by
  obtain ⟨s', hs, rfl⟩ := map_eq_ok.mp ht
  exact h.takeOr hs

theorem optional_faces : (l.optional k).2.Faces V hi := by
  unfold optional
  split
  · rename_i ha
    exact (l.accept?_took h ha).2.2
  · exact h

theorem carveBraces_faces {s : Left r × Left r} (hc : l.carveBraces = .ok s) :
    ∃ mid, s.1.Faces V mid ∧ s.2.Resumes V mid hi := by
  obtain ⟨s', hs, rfl⟩ := map_eq_ok.mp hc
  obtain ⟨mid, carved⟩ := h.carve hs
  exact ⟨mid, carved.inner, carved.resumes⟩

theorem carveParens_faces {s : Left r × Left r} (hc : l.carveParens = .ok s) :
    ∃ mid, s.1.Faces V mid ∧ (∃ t, tokenBefore? V.tokens (s.1.front mid) = some t ∧ t.kind = .leftParen) ∧
      s.2.Resumes V mid hi := by
  obtain ⟨s', hs, rfl⟩ := map_eq_ok.mp hc
  obtain ⟨mid, carved⟩ := h.carve hs
  exact ⟨mid, carved.inner, carved.opened (by decide), carved.resumes⟩

theorem divide_faces {s : Option (Left r) × Left r} (hd : l.divide k = .ok s) :
    ∃ mid, V.past mid ∧ (∀ i ∈ s.1, i.Faces V mid) ∧ s.2.Resumes V mid hi := by
  obtain ⟨⟨inner, rest⟩, hs, rfl⟩ := map_eq_ok.mp hd
  obtain ⟨mid, hpast, hinner, hrest⟩ := h.divide hs
  refine ⟨mid, hpast, ?_, hrest⟩
  intro i hm
  obtain ⟨i', hi', rfl⟩ := Option.map_eq_some_iff.mp hm
  exact hinner i' hi'

end Left

theorem Kept.take_took {l : Kept r} (h : l.Faces V hi) {s : Step r Token} (ht : l.take k = .ok s) :
    Region.Took V hi k (l.front hi) s := by
  obtain ⟨s', hs, rfl⟩ := map_eq_ok.mp ht
  exact h.takeOr hs

end Left
end OnePass
