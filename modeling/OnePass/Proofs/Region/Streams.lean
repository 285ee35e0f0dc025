import Mathlib.Algebra.Group.Nat.Defs
import OnePass.Proofs.Region.Carve

/-!
Regions as windows on a list of tokens. Whatever is done with the region of a file, and with the regions that are
carved out of it, each lies at a window of the file's tokens without a sentinel: it has been read up to a token that
is no comment, or to the end of the window. All that can be seen of a region is the list of the tokens ahead that are
no comments, and every operation is one on that list. The window stays the same as long as the region is read.
-/

namespace OnePass

open Token (Kind)

namespace Region

/-! ### Operations as data -/

/-- What may be done with a region. -/
inductive Act where
  | next
  | skip (n : Nat)
  | consume (kind : Kind)
  | expect (kind : Kind)
  | expectOr (kind : Kind) (fault : Fault)
  | subset (offset length : UInt64)
  | enclosed (opening closing : Kind)
  | upTo (terminator : Kind)

/-- What becomes of a region: what is left of it, what was carved out of it, and why nothing was if that failed. -/
structure Outcome where
  left : Region
  made : Option Region := none
  failure : Option Diagnostic := none

/-- What has become of a region that was read from, where `made` has what was carved out. -/
def Outcome.ofRead {α : Type} (made : α → Option Region) : Except Diagnostic α × Region → Outcome
  | (.ok a, left) => { left, made := made a }
  | (.error d, left) => { left, failure := some d }

/-- Does something with a region. -/
def act (r : Region) : Act → Outcome
  | .next => { left := r.next.2 }
  | .skip n => { left := r.skip n }
  | .consume kind => { left := (r.consume kind).2 }
  | .expect kind => .ofRead (fun _ => none) (r.expect kind)
  | .expectOr kind fault => .ofRead (fun _ => none) (r.expectOr kind fault)
  | .subset offset length => .ofRead some (r.subset offset length, r)
  | .enclosed opening closing => .ofRead some (r.enclosed opening closing)
  | .upTo terminator => .ofRead id (r.upTo terminator)

/-- What is left of a region after one thing has been done after the other. -/
def run (r : Region) (acts : List Act) : Region := acts.foldl (fun r a => (r.act a).left) r

/-- The region of a file, what is left of it, and what is carved out on the way. -/
inductive Reached (source : Source) (tokens : List Token) : Region → Prop where
  | whole : Reached source tokens (ofTokens source tokens)
  | left {r : Region} (before : Reached source tokens r) (a : Act) : Reached source tokens (r.act a).left
  | made {r inner : Region} (before : Reached source tokens r) (a : Act) (h : (r.act a).made = some inner) :
      Reached source tokens inner

/-! ### Windows -/

/-- All that can be seen of the region are the tokens `A` and the sentinel behind them. -/
structure Shows (A : List Token) (r : Region) : Prop where
  sentinel : r.stop.kind = .eof
  pending : r.pending = A
  peek : ∀ n, r.peek n = A[n]?.getD r.stop
  remaining : r.remaining = A.length
  hasNext : r.hasNext = true ↔ A ≠ []
  next : r.next.1 = A.headD r.stop ∧ r.next.2.pending = A.tail ∧ (A = [] → r.next.2 = r)
  skip : ∀ n, (r.skip n).pending = A.drop (min n A.length)
  subset_fails : ∀ offset length, (∃ d, r.subset offset length = .error d) ↔
    A.length < (offset.toNat + length.toNat) % 2 ^ 64
  subset_yields : ∀ offset length, offset.toNat + length.toNat < 2 ^ 64 → offset.toNat + length.toNat ≤ A.length →
    ∃ inner, r.subset offset length = .ok inner ∧ inner.reversed = false ∧
      inner.pending = (A.drop offset.toNat).take length.toNat
  subset_wraps : ∀ offset length, A.length < 2 ^ 64 → 2 ^ 64 ≤ offset.toNat + length.toNat →
    offset.toNat + length.toNat ≤ A.length + 2 ^ 64 → ∃ inner, r.subset offset length = .ok inner ∧
      inner.pending = if offset.toNat + length.toNat = 2 ^ 64 then A.drop offset.toNat else []

/-- The region ends in front of the place where it begins, and nothing is ahead. -/
structure Void (r : Region) : Prop where
  reversed : r.reversed = true
  ahead : r.ahead = []

namespace Outcome

variable {α : Type} {made : α → Option Region} {x : Except Diagnostic α × Region}

theorem left_ofRead (made : α → Option Region) (x : Except Diagnostic α × Region) : (ofRead made x).left = x.2 := by
  obtain ⟨_ | _, _⟩ := x <;> rfl

theorem made_ofRead {inner : Region} (h : (ofRead made x).made = some inner) :
    ∃ a, x.1 = .ok a ∧ made a = some inner := by
  obtain ⟨_ | a, _⟩ := x
  · cases h
  · exact ⟨a, rfl, h⟩

end Outcome

/-! ### What is seen -/

section Seen

variable {r : Region}

theorem dropTokens_suffix (n : Nat) (ts : List Token) : dropTokens n ts <:+ ts := by
  fun_induction dropTokens n ts with
  | case1 n => exact List.suffix_rfl
  | case2 n t ts comment ih => exact ih.trans (List.suffix_cons t ts)
  | case3 t ts plain => exact List.suffix_rfl
  | case4 t ts plain n ih => exact ih.trans (List.suffix_cons t ts)

theorem splitTokens_zero (ts : List Token) : splitTokens 0 ts = ([], ts) := by
  rw [splitTokens]

theorem splitTokens_cons (n : Nat) (t : Token) (ts : List Token) :
    splitTokens (n + 1) (t :: ts) = (t :: (splitTokens (if t.isComment then n + 1 else n) ts).1,
      (splitTokens (if t.isComment then n + 1 else n) ts).2) := by
  rw [splitTokens]

theorem splitTokens_append (n : Nat) (ts : List Token) : (splitTokens n ts).1 ++ (splitTokens n ts).2 = ts := by
  induction ts generalizing n with
  | nil => cases n <;> rfl
  | cons t ts ih =>
      cases n with
      | zero => rfl
      | succ n => rw [splitTokens_cons, List.cons_append, ih]

theorem pending_window (inside following : List Token) :
    (r.window inside following).pending = significant inside := significant_settle inside

theorem pending_past (inside rest : List Token) (t : Token) : (r.past inside t rest).pending = significant rest :=
  significant_settle rest

/-- Where a region has been read to a token that is no comment, that token is the first that is seen. -/
theorem pending_cons {t : Token} {ts : List Token} (hs : settle r.ahead = r.ahead) (ha : r.ahead = t :: ts) :
    r.pending = t :: significant ts := by
  rw [ha] at hs
  rw [pending, ha, significant_cons (isComment_of_settle hs)]

theorem pending_eq_nil_iff (hs : settle r.ahead = r.ahead) : r.pending = [] ↔ r.ahead = [] := by
  cases ha : r.ahead with
  | nil => simp [pending, ha, significant]
  | cons t ts => simp [pending_cons hs ha]

theorem next_eq (hs : settle r.ahead = r.ahead) :
    r.next.1 = r.pending.headD r.stop ∧ r.next.2.pending = r.pending.tail ∧ (r.pending = [] → r.next.2 = r) := by
  rw [pending_eq_nil_iff hs]
  cases ha : r.ahead with
  | nil =>
      have none : r.pending = [] := (pending_eq_nil_iff hs).mpr ha
      simp only [next, ha, none]
      exact ⟨rfl, rfl, fun _ => trivial⟩
  | cons t ts =>
      rw [pending_cons hs ha]
      simp only [next, ha]
      exact ⟨rfl, significant_settle ts, fun none => absurd none (List.cons_ne_nil _ _)⟩

theorem splitTokens_suffix (n : Nat) (ts : List Token) : (splitTokens n ts).2 <:+ ts :=
  ⟨_, splitTokens_append n ts⟩

/-- Tokens that are left out in front and tokens that are taken behind them are counted together. -/
theorem splitTokens_dropTokens {m : Nat} (hm : m ≠ 0) (n : Nat) (ts : List Token) :
    (splitTokens (n + m) ts).2 = (splitTokens m (dropTokens n ts)).2 := by
  obtain ⟨m, rfl⟩ := Nat.exists_eq_succ_of_ne_zero hm
  fun_induction dropTokens n ts with
  | case1 n => rfl
  | case2 n t ts comment ih => rw [← ih, Nat.add_succ, splitTokens_cons, if_pos comment]
  | case3 t ts plain => rw [Nat.zero_add]
  | case4 t ts plain n ih => rw [← ih, Nat.succ_add, splitTokens_cons, if_neg plain]

/-- What lies between two places of which the second is not in front of the first. -/
theorem between_append (hforward : r.reversed = false) (inside following : List Token) :
    r.between (inside ++ following) following = r.window inside following := by
  unfold between window
  rw [List.length_append, Nat.add_sub_cancel, List.take_left, hforward]
  cases inside with
  | nil => cases following <;> simp
  | cons t ts => simp

section Words

variable {offset length : UInt64}

/-- Behind the last token that is asked for. -/
def behindLast (r : Region) (offset length : UInt64) : List Token :=
  if length = 0 then dropTokens offset.toNat r.ahead
  else (splitTokens ((offset + length - 1).toNat + 1) r.ahead).2

theorem behindLast_suffix (offset length : UInt64) : r.behindLast offset length <:+ r.ahead := by
  unfold behindLast
  split
  · exact dropTokens_suffix _ _
  · exact splitTokens_suffix _ _

theorem subset_eq_ok {inner : Region} (h : r.subset offset length = .ok inner) :
    inner = r.between (dropTokens offset.toNat r.ahead) (r.behindLast offset length) := by
  unfold subset at h
  split at h
  · cases h
  · exact (Except.ok.inj h).symm

/-- The tokens asked for end where so many have been counted, as long as the sum does not wrap further than to
nothing. -/
theorem behindLast_eq (h : offset.toNat + length.toNat ≤ 2 ^ 64) :
    r.behindLast offset length = (splitTokens length.toNat (dropTokens offset.toNat r.ahead)).2 := by
  unfold behindLast
  split
  · rename_i hzero
    rw [hzero, UInt64.toNat_zero, splitTokens_zero]
  · rename_i hne
    have hlength : length.toNat ≠ 0 := fun h => hne (UInt64.toNat_inj.mp h)
    have hsum : (offset + length - 1).toNat + 1 = offset.toNat + length.toNat := by
      rw [UInt64.toNat_sub, UInt64.toNat_add, UInt64.toNat_one]
      omega
    rw [hsum, splitTokens_dropTokens hlength]

theorem between_behindLast (hforward : r.reversed = false) (h : offset.toNat + length.toNat ≤ 2 ^ 64) :
    r.between (dropTokens offset.toNat r.ahead) (r.behindLast offset length) =
      r.window (splitTokens length.toNat (dropTokens offset.toNat r.ahead)).1
        (splitTokens length.toNat (dropTokens offset.toNat r.ahead)).2 := by
  rw [behindLast_eq h, ← between_append hforward, splitTokens_append]

end Words

end Seen

/-! ### What is done to a window -/

/-- The tokens are those outside the window, those of it that have been read, those ahead, and again those
outside. -/
structure Opens (tokens outer read after : List Token) (r : Region) : Prop where
  forward : r.reversed = false
  whole : tokens = outer ++ (read ++ (r.ahead ++ after))
  noSentinel : ∀ t ∈ read ++ r.ahead, t.kind ≠ .eof
  settled : settle r.ahead = r.ahead
  taken : r.taken = (significant read).length
  sentinel : r.stop.kind = .eof

namespace Opens

variable {tokens outer read after : List Token} {r : Region}

theorem settle_split (ts : List Token) :
    ∃ comments, ts = comments ++ settle ts ∧ significant comments = [] := by
  refine ⟨ts.takeWhile Token.isComment, List.takeWhile_append_dropWhile.symm, ?_⟩
  refine List.filter_eq_nil_iff.mpr fun t ht => ?_
  simpa using List.all_eq_true.mp List.all_takeWhile t ht

theorem ofTokens (source : Source) (tokens : List Token) :
    ∃ read after, (Region.ofTokens source tokens).Opens tokens [] read after := by
  obtain ⟨comments, hsplit, hcomments⟩ := settle_split (tokens.takeWhile (·.kind ≠ .eof))
  refine ⟨comments, tokens.dropWhile (·.kind ≠ .eof), rfl, ?_, ?_, settle_settle _, ?_, ?_⟩
  · rw [List.nil_append, ← List.append_assoc, Region.ofTokens, ← hsplit, List.takeWhile_append_dropWhile]
  · intro t ht
    rw [Region.ofTokens, ← hsplit] at ht
    simpa using List.all_eq_true.mp List.all_takeWhile t ht
  · rw [hcomments]
    rfl
  · rw [Region.ofTokens]
    cases hfind : tokens.find? (·.kind = .eof) with
    | none => rfl
    | some t => simpa using List.find?_some hfind

/-- What has been read is added to, and nothing else changes. -/
theorem advance (h : r.Opens tokens outer read after) (front : List Token) {rest : List Token}
    (ha : r.ahead = front ++ rest)
    {r' : Region} (hahead : r'.ahead = settle rest) (htaken : r'.taken = r.taken + (significant front).length)
    (hstop : r'.stop = r.stop) (hreversed : r'.reversed = r.reversed) :
    ∃ more, r'.Opens tokens outer (read ++ more) after := by
  obtain ⟨comments, hsplit, hcomments⟩ := settle_split rest
  refine ⟨front ++ comments, hreversed.trans h.forward, ?_, ?_, ?_, ?_, hstop ▸ h.sentinel⟩
  · rw [h.whole, ha, hahead]
    conv_lhs => rw [hsplit]
    simp only [List.append_assoc]
  · intro t ht
    apply h.noSentinel
    rw [ha, hsplit]
    rw [hahead] at ht
    simpa only [List.append_assoc] using ht
  · rw [hahead, settle_settle]
  · rw [htaken, h.taken, significant_append, significant_append, hcomments, List.append_nil, List.length_append]

/-- A part of what is ahead is a window of its own. -/
theorem window (h : r.Opens tokens outer read after) (before : List Token) {inside following : List Token}
    (ha : r.ahead = before ++ (inside ++ following)) :
    ∃ outer' read' after', (r.window inside following).Opens tokens outer' read' after' := by
  obtain ⟨comments, hsplit, hcomments⟩ := settle_split inside
  have hahead : (r.window inside following).ahead = settle inside := rfl
  refine ⟨outer ++ (read ++ before), comments, following ++ after, rfl, ?_, ?_, ?_, ?_, rfl⟩
  · rw [h.whole, ha, hahead]
    conv_lhs => rw [hsplit]
    simp only [List.append_assoc]
  · intro t ht
    rw [hahead, ← hsplit] at ht
    apply h.noSentinel
    rw [ha]
    simp [ht]
  · rw [hahead, settle_settle]
  · rw [hcomments]
    rfl

/-- Nothing has been done. -/
theorem same (h : r.Opens tokens outer read after) : ∃ more, r.Opens tokens outer (read ++ more) after :=
  ⟨[], (List.append_nil read).symm ▸ h⟩

theorem behind (h : r.Opens tokens outer read after) {t : Token} {ts : List Token} (ha : r.ahead = t :: ts) :
    ∃ more, (r.behind t ts).Opens tokens outer (read ++ more) after := by
  have plain := isComment_of_settle (ha ▸ h.settled)
  refine h.advance [t] ha rfl ?_ rfl rfl
  rw [significant_cons plain]
  rfl

theorem past (h : r.Opens tokens outer read after) {inside rest : List Token} {t : Token}
    (ha : r.ahead = inside ++ t :: rest) : ∃ more, (r.past inside t rest).Opens tokens outer (read ++ more) after :=
  h.advance (inside ++ [t]) (ha.trans (List.append_cons _ _ _)) rfl rfl rfl rfl

theorem next (h : r.Opens tokens outer read after) :
    ∃ more, r.next.2.Opens tokens outer (read ++ more) after := by
  unfold Region.next
  split
  · exact h.same
  · exact h.behind ‹_›

theorem skip (h : r.Opens tokens outer read after) (n : Nat) :
    ∃ more, (r.skip n).Opens tokens outer (read ++ more) after := by
  induction n generalizing r read with
  | zero => exact h.same
  | succ n ih =>
      rw [Region.skip]
      split
      · obtain ⟨first, hfirst⟩ := h.next
        obtain ⟨later, hlater⟩ := ih hfirst
        exact ⟨first ++ later, List.append_assoc read first later ▸ hlater⟩
      · exact h.same

theorem expectOr (h : r.Opens tokens outer read after) (kind : Kind) (fault : Fault) :
    ∃ more, (r.expectOr kind fault).2.Opens tokens outer (read ++ more) after := by
  unfold Region.expectOr
  split
  · exact h.next
  · exact h.same

theorem enclosed (h : r.Opens tokens outer read after) (o c : Kind) :
    (∃ more, (r.enclosed o c).2.Opens tokens outer (read ++ more) after) ∧
      ∀ inner, (r.enclosed o c).1 = .ok inner →
        ∃ outer' read' after', inner.Opens tokens outer' read' after' := by
  have first := h.expectOr o (r.mismatch o)
  unfold Region.enclosed Region.expect
  split
  · rename_i hexpect
    rw [hexpect] at first
    exact ⟨first, nofun⟩
  · rename_i t r₁ hexpect
    rw [hexpect] at first
    obtain ⟨first, hfirst⟩ := first
    split
    · exact ⟨⟨first, hfirst⟩, nofun⟩
    · rename_i inside close rest hsplit
      have ha : r₁.ahead = inside ++ close :: rest := (splitClosing_append hsplit).symm
      refine ⟨?_, ?_⟩
      · obtain ⟨later, hlater⟩ := hfirst.past ha
        exact ⟨first ++ later, List.append_assoc read first later ▸ hlater⟩
      · rintro _ ⟨⟩
        exact hfirst.window [] ha

theorem upTo (h : r.Opens tokens outer read after) (k : Kind) :
    (∃ more, (r.upTo k).2.Opens tokens outer (read ++ more) after) ∧
      ∀ i, (r.upTo k).1 = .ok (some i) → ∃ outer' read' after', i.Opens tokens outer' read' after' := by
  unfold Region.upTo
  split
  · exact ⟨h.same, nofun⟩
  · rename_i inside t later hsplit
    have ha : r.ahead = inside ++ t :: later := (splitTerminator_append hsplit).symm
    refine ⟨h.past ha, fun i hi => ?_⟩
    have hinner := Except.ok.inj hi
    split at hinner
    · cases hinner
    · exact Option.some.inj hinner ▸ h.window [] ha

/-- Whatever is done with a region, it stays in its window and goes forward there. -/
theorem act_left (h : r.Opens tokens outer read after) (a : Act) :
    ∃ more, (r.act a).left.Opens tokens outer (read ++ more) after := by
  cases a with
  | next => exact h.next
  | skip n => exact h.skip n
  | consume kind =>
      simp only [act, Region.consume]
      split
      · exact h.next
      · exact h.same
  | expect kind => exact Outcome.left_ofRead _ _ ▸ h.expectOr kind _
  | expectOr kind fault => exact Outcome.left_ofRead _ _ ▸ h.expectOr kind fault
  | subset offset length => exact Outcome.left_ofRead _ _ ▸ h.same
  | enclosed opening closing => exact Outcome.left_ofRead _ _ ▸ (h.enclosed opening closing).1
  | upTo terminator => exact Outcome.left_ofRead _ _ ▸ (h.upTo terminator).1

/-- What lies between two places is a window, or the second place is in front of the first. -/
theorem between (h : r.Opens tokens outer read after) {first following : List Token} (hfirst : first <:+ r.ahead)
    (hfollowing : following <:+ r.ahead) :
    (∃ outer' read' after', (r.between first following).Opens tokens outer' read' after') ∨
      (r.between first following).Void := by
  by_cases hle : following.length ≤ first.length
  · obtain ⟨inside, rfl⟩ := List.suffix_of_suffix_length_le hfollowing hfirst hle
    obtain ⟨before, hbefore⟩ := hfirst
    rw [between_append h.forward]
    exact .inl (h.window before hbefore.symm)
  · refine .inr ⟨?_, ?_⟩
    · simp [Region.between, Nat.lt_of_not_le hle]
    · simp [Region.between, Region.window, Nat.sub_eq_zero_of_le (Nat.le_of_not_le hle), settle]

/-- What is carved out of a region lies at a window, or it is void. -/
theorem act_made (h : r.Opens tokens outer read after) (a : Act) {inner : Region}
    (hm : (r.act a).made = some inner) :
    (∃ outer' read' after', inner.Opens tokens outer' read' after') ∨
      inner.Void ∧ ∃ offset length, a = .subset offset length ∧ 2 ^ 64 < offset.toNat + length.toNat := by
  cases a with
  | next | skip | consume => cases hm
  | expect | expectOr =>
      obtain ⟨_, _, ⟨⟩⟩ := Outcome.made_ofRead hm
  | subset offset length =>
      obtain ⟨_, hsubset, ⟨⟩⟩ := Outcome.made_ofRead hm
      rw [subset_eq_ok hsubset]
      by_cases hwraps : 2 ^ 64 < offset.toNat + length.toNat
      · exact (h.between (dropTokens_suffix _ _) (behindLast_suffix _ _)).imp_right (⟨·, _, _, rfl, hwraps⟩)
      · obtain ⟨before, hbefore⟩ := dropTokens_suffix offset.toNat r.ahead
        rw [between_behindLast h.forward (Nat.le_of_not_lt hwraps)]
        refine .inl (h.window before ?_)
        rw [splitTokens_append, hbefore]
  | enclosed opening closing =>
      obtain ⟨_, hinner, ⟨⟩⟩ := Outcome.made_ofRead hm
      exact .inl ((h.enclosed opening closing).2 _ hinner)
  | upTo terminator =>
      obtain ⟨_, hinner, rfl⟩ := Outcome.made_ofRead hm
      exact .inl ((h.upTo terminator).2 _ hinner)

theorem run (h : r.Opens tokens outer read after) (acts : List Act) :
    ∃ more, (r.run acts).Opens tokens outer (read ++ more) after := by
  induction acts generalizing r read with
  | nil => exact h.same
  | cons a acts ih =>
      obtain ⟨first, hfirst⟩ := h.act_left a
      obtain ⟨later, hlater⟩ := ih hfirst
      exact ⟨first ++ later, List.append_assoc read first later ▸ hlater⟩

end Opens

namespace Void

variable {r : Region} (h : r.Void)

include h

theorem next_eq : r.next = (r.stop, r) := by rw [Region.next, h.ahead]

theorem expectOr_left (kind : Kind) (fault : Fault) : (r.expectOr kind fault).2 = r := by
  unfold Region.expectOr
  split
  · exact congrArg Prod.snd h.next_eq
  · rfl

theorem enclosed_eq (o c : Kind) : ∃ d, r.enclosed o c = (.error d, r) := by
  have left := h.expectOr_left o (r.mismatch o)
  unfold Region.enclosed Region.expect
  split
  · rename_i hexpect
    rw [hexpect] at left
    exact ⟨_, congrArg (_, ·) left⟩
  · rename_i t r₁ hexpect
    rw [hexpect] at left
    obtain rfl : r₁ = r := left
    rw [h.ahead, splitClosing]
    exact ⟨_, rfl⟩

theorem upTo_eq (k : Kind) : ∃ d, r.upTo k = (.error d, r) := ⟨_, by rw [Region.upTo, h.ahead, splitTerminator]⟩

/-- Nothing that is done with a void region changes it. -/
theorem act_left (a : Act) : (r.act a).left = r := by
  cases a with
  | next => exact congrArg Prod.snd h.next_eq
  | skip n => cases n <;> simp [act, Region.skip, hasNext, h.ahead]
  | consume kind =>
      simp only [act, Region.consume, h.next_eq]
      split <;> rfl
  | expect kind => exact (Outcome.left_ofRead _ _).trans (h.expectOr_left kind _)
  | expectOr kind fault => exact (Outcome.left_ofRead _ _).trans (h.expectOr_left kind fault)
  | subset offset length => exact Outcome.left_ofRead _ _
  | enclosed opening closing =>
      obtain ⟨d, hd⟩ := h.enclosed_eq opening closing
      exact (Outcome.left_ofRead _ _).trans (congrArg Prod.snd hd)
  | upTo terminator =>
      obtain ⟨d, hd⟩ := h.upTo_eq terminator
      exact (Outcome.left_ofRead _ _).trans (congrArg Prod.snd hd)

theorem act_made (a : Act) {inner : Region} (hm : (r.act a).made = some inner) : inner.Void := by
  cases a with
  | next | skip | consume => cases hm
  | expect | expectOr =>
      obtain ⟨_, _, ⟨⟩⟩ := Outcome.made_ofRead hm
  | subset offset length =>
      obtain ⟨_, hsubset, ⟨⟩⟩ := Outcome.made_ofRead hm
      have nothing : dropTokens offset.toNat r.ahead = [] := by rw [h.ahead, dropTokens]
      rw [subset_eq_ok hsubset, nothing]
      exact ⟨by simp [Region.between, h.reversed], by simp [Region.between, Region.window, settle]⟩
  | enclosed opening closing =>
      obtain ⟨d, hd⟩ := h.enclosed_eq opening closing
      obtain ⟨_, hinner, _⟩ := Outcome.made_ofRead hm
      rw [hd] at hinner
      cases hinner
  | upTo terminator =>
      obtain ⟨d, hd⟩ := h.upTo_eq terminator
      obtain ⟨_, hinner, _⟩ := Outcome.made_ofRead hm
      rw [hd] at hinner
      cases hinner

end Void

theorem Reached.opens_or_void {source : Source} {tokens : List Token} {r : Region} (h : Reached source tokens r) :
    (∃ outer read after, r.Opens tokens outer read after) ∨ r.Void := by
  induction h with
  | whole => exact .inl ⟨[], Opens.ofTokens source tokens⟩
  | left _ a ih =>
      rcases ih with ⟨outer, read, after, hr⟩ | hr
      · obtain ⟨more, hleft⟩ := hr.act_left a
        exact .inl ⟨outer, read ++ more, after, hleft⟩
      · exact .inr ((hr.act_left a).symm ▸ hr)
  | made _ a hm ih =>
      rcases ih with ⟨outer, read, after, hr⟩ | hr
      · exact (hr.act_made a hm).imp_right (·.1)
      · exact .inr (hr.act_made a hm)

theorem Reached.settled {source : Source} {tokens : List Token} {r : Region} (h : Reached source tokens r) :
    settle r.ahead = r.ahead := by
  rcases h.opens_or_void with ⟨_, _, _, hr⟩ | hr
  · exact hr.settled
  · rw [hr.ahead]
    rfl

/-! ### Places in the window -/

namespace Opens

variable {tokens outer read after : List Token} {r : Region}

end Opens

end Region
end OnePass
