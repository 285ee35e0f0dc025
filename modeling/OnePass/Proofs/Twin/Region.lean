import OnePass.Proofs.Layout.Basic
import OnePass.Proofs.Region.Loop
import OnePass.Proofs.Typing.Faults

/-!
Regions that differ in their comments. Whatever is read from a region is read from its twin, what is left are
twins again, and where there is a failure it is the same. What is read next is no comment, or the regions are
the same; so this is so at every step, and what is carved out begins with what is read next, or it is empty for
both.

Along with this it is said where the spans come from that readers make: from the tokens, by joining them.
-/

namespace OnePass

open Token (Kind)

namespace Region

variable {as bs : List Token}

theorem settle_of_append (h : settle (as ++ bs) = as ++ bs) : settle as = as := by
  cases as with
  | nil => rfl
  | cons t as => exact List.dropWhile_cons_of_neg (by simp [isComment_of_settle h])

/-- Lists that differ in their comments, and have none in front, begin alike. -/
theorem cases_of_significant_eq (has : settle as = as) (hbs : settle bs = bs)
    (h : significant bs = significant as) : as = [] ∧ bs = [] ∨
    ∃ t ts ts', as = t :: ts ∧ bs = t :: ts' ∧ significant ts' = significant ts ∧ t.isComment = false := by
  cases as with
  | nil =>
      cases bs with
      | nil => exact .inl ⟨rfl, rfl⟩
      | cons t ts' =>
          rw [significant_cons (isComment_of_settle hbs)] at h
          cases h
  | cons t ts =>
      have plain := isComment_of_settle has
      rw [significant_cons plain] at h
      cases bs with
      | nil => cases h
      | cons t' ts' =>
          rw [significant_cons (isComment_of_settle hbs), List.cons.injEq] at h
          exact .inr ⟨t, ts, ts', rfl, h.1 ▸ rfl, h.2, plain⟩

/-- Two splits that are the same without comments. -/
theorem cases_of_withoutComments_eq {x y : Option (List Token × Token × List Token)}
    (h : x.map withoutComments = y.map withoutComments) : x = none ∧ y = none ∨
    ∃ as t bs as' bs', x = some (as, t, bs) ∧ y = some (as', t, bs') ∧ significant as' = significant as ∧
      significant bs' = significant bs := by
  cases x with
  | none =>
      cases y with
      | none => exact .inl ⟨rfl, rfl⟩
      | some _ => cases h
  | some x =>
      cases y with
      | none => cases h
      | some y =>
          obtain ⟨as, t, bs⟩ := x
          obtain ⟨as', t', bs'⟩ := y
          simp only [Option.map_some, withoutComments, Option.some.injEq, Prod.mk.injEq] at h
          obtain ⟨has, rfl, hbs⟩ := h
          exact .inr ⟨as, t, bs, as', bs', rfl, rfl, has.symm, hbs.symm⟩

end Region

namespace Survey

variable (S : Survey)

/-- A region of the file as readers meet it. -/
structure Sees (r : Region) : Prop where
  source : S.locates → r.source = S.source
  tokens : r.ahead <:+: S.tokens
  stop : S.span r.stop.span
  last : S.span r.last

/-- The regions `r` and `r'` differ in their comments only, and not in any at the front. -/
structure Twin (r r' : Region) : Prop extends S.Sees r where
  same : r' = { r with ahead := r'.ahead }
  pending : Region.significant r'.ahead = Region.significant r.ahead
  settles : r'.ahead = r.ahead ∨ r.Settled ∧ r'.Settled

/-- The same was read, with a property of it and of what is left, and twins are left. -/
def Steps {α : Type} (P : α → Region → Prop) {r r' : Region} (s : Step r α) (s' : Step r' α) : Prop :=
  s.1 = s'.1 ∧ P s.1 s.2 ∧ S.Twin s.2 s'.2

/-- As `Steps`, where nothing may have been read. -/
def Rests {α : Type} (P : α → Region → Prop) {r r' : Region} (s : Rest r α) (s' : Rest r' α) : Prop :=
  s.1 = s'.1 ∧ P s.1 s.2 ∧ S.Twin s.2 s'.2

/-- A token of the file, of the kind asked for. -/
def Knows (k : Kind) (t : Token) : Prop := t ∈ S.tokens ∧ t.kind = k

/-- The diagnostic points into the file, or says of a token that it is no built-in type. -/
def Locates (d : Diagnostic) : Prop :=
  d.PointsInto S.source S.span ∨
    ∃ t, S.Knows .primitive t ∧ Primitive.ofWord? t.lexeme = none ∧ d = { fault := .unknownPrimitive t.lexeme }

/-- A failure that points where it is asked to. -/
def Admits (d : Diagnostic) : Prop := S.locates → S.Locates d

/-- Two computations without state fail alike, or yield what is related. -/
inductive Match {α β : Type} (A : α → β → Prop) : Except Diagnostic α → Except Diagnostic β → Prop where
  | ok {a : α} {b : β} (h : A a b) : Match A (.ok a) (.ok b)
  | error {d : Diagnostic} (h : S.Admits d) : Match A (.error d) (.error d)

variable {S}

theorem Admits.of_pointsInto {d : Diagnostic} {source : Source} (hsource : S.locates → source = S.source)
    (h : d.PointsInto source S.span) : S.Admits d :=
  fun located => .inl (hsource located ▸ h)

theorem Admits.located {fault : Fault} {source : Source} {span : Span} (hsource : S.locates → source = S.source)
    (h : S.span span) : S.Admits (.located fault source span) :=
  .of_pointsInto hsource (Diagnostic.pointsInto_located h)

namespace Sees

variable {r : Region}

theorem ofToken (h : S.Sees r) {t : Token} (ht : t ∈ r.ahead) : t ∈ S.tokens := h.tokens.subset ht

theorem head_span (h : S.Sees r) : S.span r.head.span := by
  unfold Region.head
  cases ha : r.ahead with
  | nil => exact h.stop
  | cons t ts => exact S.ofToken t (h.ofToken (ha ▸ List.mem_cons_self))

theorem spanFrom (h : S.Sees r) {start : Span} (hs : S.span start) : S.span (r.spanFrom start) :=
  S.merge hs h.last

theorem fail (h : S.Sees r) (fault : Fault) : S.Admits (r.fail fault) :=
  .located h.source h.head_span

end Sees

/-- Nothing is asked of a region, so any will do. -/
theorem plain_sees (source : Source) (r : Region) : (Survey.plain source r.ahead).Sees r :=
  ⟨nofun, List.infix_refl _, trivial, trivial⟩

/-- A region is its own twin. -/
theorem Sees.twin {r : Region} (h : S.Sees r) : S.Twin r r :=
  { h with same := rfl, pending := rfl, settles := .inl rfl }

namespace Twin

variable {r r' : Region} (h : S.Twin r r')

include h

theorem source_eq : r'.source = r.source := by rw [h.same]

theorem stop_eq : r'.stop = r.stop := by rw [h.same]

theorem last_eq : r'.last = r.last := by rw [h.same]

/-- Both are at their ends, or both begin with the same token. -/
theorem ahead_cases : r.ahead = [] ∧ r'.ahead = [] ∨ ∃ t ts ts', r.ahead = t :: ts ∧ r'.ahead = t :: ts' ∧
    Region.significant ts' = Region.significant ts := by
  rcases h.settles with heq | ⟨hs, hs'⟩
  · cases ha : r.ahead with
    | nil => exact .inl ⟨rfl, heq.trans ha⟩
    | cons t ts => exact .inr ⟨t, ts, ts, rfl, heq.trans ha, rfl⟩
  · rcases Region.cases_of_significant_eq hs hs' h.pending with hnil | ⟨t, ts, ts', ha, ha', hts, _⟩
    · exact .inl hnil
    · exact .inr ⟨t, ts, ts', ha, ha', hts⟩

theorem hasNext_eq : r'.hasNext = r.hasNext := by
  rcases h.ahead_cases with ⟨ha, ha'⟩ | ⟨t, _, _, ha, ha', _⟩ <;> simp [Region.hasNext, ha, ha']

theorem head_eq : r'.head = r.head := by
  rcases h.ahead_cases with ⟨ha, ha'⟩ | ⟨t, _, _, ha, ha', _⟩ <;> simp [Region.head, ha, ha', h.stop_eq]

theorem headIs_eq (k : Kind) : r'.headIs k = r.headIs k := by rw [Region.headIs, h.head_eq]; rfl

theorem peekIs_eq (k : Kind) (n : Nat) : r'.peekIs k n = r.peekIs k n := by
  unfold Region.peekIs Region.peek
  rw [List.headD_eq_head?_getD, List.headD_eq_head?_getD, Region.head?_dropTokens, Region.head?_dropTokens,
    h.pending, h.stop_eq]

theorem spanFrom_eq (start : Span) : r'.spanFrom start = r.spanFrom start := by
  rw [Region.spanFrom, h.last_eq]
  rfl

theorem fail_eq (fault : Fault) : r'.fail fault = r.fail fault := by
  rw [Region.fail, h.source_eq, h.head_eq]
  rfl

theorem mismatch_eq (k : Kind) : r'.mismatch k = r.mismatch k := by
  rw [Region.mismatch, h.hasNext_eq, h.head_eq]
  rfl

theorem behind {t : Token} {ts ts' : List Token} (ha : r.ahead = t :: ts)
    (hts : Region.significant ts' = Region.significant ts) : S.Twin (r.behind t ts) (r'.behind t ts') where
  source := h.source
  tokens := (ha ▸ (Region.settle_suffix ts).trans (List.suffix_cons t ts) : Region.settle ts <:+ r.ahead).isInfix.trans
    h.tokens
  stop := h.stop
  last := S.ofToken t (h.ofToken (ha ▸ List.mem_cons_self))
  same := by rw [h.same]; rfl
  pending := by
    change Region.significant (Region.settle ts') = Region.significant (Region.settle ts)
    rw [Region.significant_settle, Region.significant_settle, hts]
  settles := .inr ⟨Region.settle_settle ts, Region.settle_settle ts'⟩

/-! ### Single tokens -/

theorem next? : r.next? = none ∧ r'.next? = none ∨
    ∃ t l l', r.next? = some (t, l) ∧ r'.next? = some (t, l') ∧ t ∈ S.tokens ∧ S.Twin l l' := by
  rcases h.ahead_cases with ⟨ha, ha'⟩ | ⟨t, ts, ts', ha, ha', hts⟩
  · exact .inl ⟨Region.next?_eq_none ha, Region.next?_eq_none ha'⟩
  · obtain ⟨l, hl, behind⟩ := Region.next?_eq_some ha
    obtain ⟨l', hl', behind'⟩ := Region.next?_eq_some ha'
    refine .inr ⟨t, l, l', hl, hl', h.ofToken (ha ▸ List.mem_cons_self), ?_⟩
    rw [behind, behind']
    exact h.behind ha hts

theorem accept? (k : Kind) : r.accept? k = none ∧ r'.accept? k = none ∨
    ∃ t l l', r.accept? k = some (t, l) ∧ r'.accept? k = some (t, l') ∧ S.Knows k t ∧ S.Twin l l' := by
  unfold Region.accept?
  rcases h.next? with ⟨hn, hn'⟩ | ⟨t, l, l', hn, hn', ht, hl⟩
  · exact .inl ⟨by rw [hn]; rfl, by rw [hn']; rfl⟩
  · by_cases hk : t.kind = k
    · exact .inr ⟨t, l, l', by simp [hn, hk], by simp [hn', hk], ⟨ht, hk⟩, hl⟩
    · exact .inl ⟨by simp [hn, hk], by simp [hn', hk]⟩

theorem takeOr (k : Kind) (fault : Fault) :
    S.Match (S.Steps fun t _ => S.Knows k t) (r.takeOr k fault) (r'.takeOr k fault) := by
  unfold Region.takeOr
  rcases h.accept? k with ⟨hn, hn'⟩ | ⟨t, l, l', hn, hn', ht, hl⟩
  · rw [hn, hn', h.fail_eq]
    exact .error (h.fail fault)
  · rw [hn, hn']
    exact .ok ⟨rfl, ht, hl⟩

theorem take (k : Kind) : S.Match (S.Steps fun t _ => S.Knows k t) (r.take k) (r'.take k) := by
  unfold Region.take
  rw [h.mismatch_eq]
  exact h.takeOr k _

theorem takeNamed (k : Kind) (what : String) :
    S.Match (S.Steps fun t _ => S.Knows k t) (r.takeNamed k what) (r'.takeNamed k what) :=
  h.takeOr k _

theorem finish : S.Match (fun _ _ => True) r.finish r'.finish := by
  unfold Region.finish
  rw [h.hasNext_eq, h.head_eq, h.fail_eq]
  split
  · exact .error (h.fail _)
  · exact .ok trivial

/-! ### Regions inside regions -/

section Inside

variable {inside inside' : List Token} {t : Token} {rest rest' : List Token} (ha : r.ahead = inside ++ t :: rest)
  (ha' : r'.ahead = inside' ++ t :: rest') (plain : t.isComment = false)
  (hinside : Region.significant inside' = Region.significant inside)

include ha ha' plain hinside

/-- What is carved out begins with what is read next. -/
theorem inside_cases : inside = [] ∧ inside' = [] ∨ ∃ u us us', inside = u :: us ∧ inside' = u :: us' := by
  rcases h.settles with heq | ⟨hs, hs'⟩
  · -- no token of one of them is behind the end of the other, for that would be `t`
    rw [ha, ha'] at heq
    cases inside with
    | nil =>
        cases inside' with
        | nil => exact .inl ⟨rfl, rfl⟩
        | cons u us =>
            obtain ⟨rfl, _⟩ := List.cons.inj heq
            rw [Region.significant_cons plain] at hinside
            cases hinside
    | cons u us =>
        cases inside' with
        | nil =>
            obtain ⟨rfl, _⟩ := List.cons.inj heq
            rw [Region.significant_cons plain] at hinside
            cases hinside
        | cons u' us' =>
            obtain ⟨rfl, _⟩ := List.cons.inj heq
            exact .inr ⟨_, us, us', rfl, rfl⟩
  · rw [Region.Settled, ha] at hs
    rw [Region.Settled, ha'] at hs'
    rcases Region.cases_of_significant_eq (Region.settle_of_append hs) (Region.settle_of_append hs') hinside with
      hnil | ⟨u, us, us', hu, hu', _⟩
    · exact .inl hnil
    · exact .inr ⟨u, us, us', hu, hu'⟩

theorem window : S.Twin (r.window inside (t :: rest)) (r'.window inside' (t :: rest')) where
  source := h.source
  tokens := by
    have within : inside <:+: r.ahead := ha ▸ (List.prefix_append _ _).isInfix
    exact (Region.settle_suffix inside).isInfix.trans (within.trans h.tokens)
  stop := S.opening (S.ofToken t (h.ofToken (by simp [ha])))
  last := by
    unfold Region.window
    cases inside with
    | nil => exact S.opening (S.ofToken t (h.ofToken (by simp [ha])))
    | cons u us => exact S.opening (S.ofToken u (h.ofToken (by simp [ha])))
  same := by
    rcases h.inside_cases ha ha' plain hinside with ⟨rfl, rfl⟩ | ⟨u, us, us', rfl, rfl⟩
    all_goals simp only [Region.window, h.source_eq]
  pending := by
    change Region.significant (Region.settle inside') = Region.significant (Region.settle inside)
    rw [Region.significant_settle, Region.significant_settle, hinside]
  settles := .inr ⟨Region.settle_settle inside, Region.settle_settle inside'⟩

omit ha' plain in
theorem past (hrest : Region.significant rest' = Region.significant rest) :
    S.Twin (r.past inside t rest) (r'.past inside' t rest') where
  source := h.source
  tokens := by
    have suffix : rest <:+ r.ahead := ha ▸ (List.suffix_cons t rest).trans (List.suffix_append _ _)
    exact ((Region.settle_suffix rest).trans suffix).isInfix.trans h.tokens
  stop := h.stop
  last := S.ofToken t (h.ofToken (by simp [ha]))
  same := by
    have count : (Region.significant (inside' ++ [t])).length = (Region.significant (inside ++ [t])).length := by
      rw [Region.significant_append, Region.significant_append, hinside]
    rw [h.same]
    simp only [Region.past, count]
  pending := by
    change Region.significant (Region.settle rest') = Region.significant (Region.settle rest)
    rw [Region.significant_settle, Region.significant_settle, hrest]
  settles := .inr ⟨Region.settle_settle rest, Region.settle_settle rest'⟩

end Inside

theorem enclosed {o c : Kind} (ho : o ≠ .comment) (hc : c ≠ .comment) :
    (∃ d rest rest', r.enclosed o c = (.error d, rest) ∧ r'.enclosed o c = (.error d, rest') ∧ S.Admits d) ∨
      ∃ inner rest inner' rest', r.enclosed o c = (.ok inner, rest) ∧ r'.enclosed o c = (.ok inner', rest') ∧
        S.Twin inner inner' ∧ S.Twin rest rest' := by
  unfold Region.enclosed Region.expect Region.expectOr
  rw [h.headIs_eq, h.mismatch_eq, h.fail_eq, h.source_eq]
  by_cases hk : r.headIs o
  · rw [if_pos hk, if_pos hk]
    have unmatched : S.Admits (.located (.unmatched o c) r.source r.head.span) := .located h.source h.head_span
    rcases h.ahead_cases with ⟨ha, ha'⟩ | ⟨t, ts, ts', ha, ha', hts⟩
    · refine .inl ⟨_, r, r', ?_, ?_, unmatched⟩
      · simp [Region.next, ha, Region.splitClosing, Region.head]
      · simp [Region.next, ha', Region.splitClosing, Region.head, ha, h.stop_eq]
    · have behind := h.behind ha hts
      have head : r.head = t := by simp [Region.head, ha]
      have splits := congrArg (Region.splitClosing o c 0) behind.pending.symm
      rw [Region.splitClosing_significant ho hc, Region.splitClosing_significant ho hc] at splits
      simp only [Region.next, ha, ha']
      rcases Region.cases_of_withoutComments_eq splits with ⟨hs, hs'⟩ |
        ⟨inside, close, after, inside', after', hs, hs', hinside, hafter⟩
      · rw [hs, hs']
        exact .inl ⟨_, _, _, rfl, rfl, head ▸ unmatched⟩
      · rw [hs, hs']
        have found := (Region.splitClosing_append hs).symm
        have found' := (Region.splitClosing_append hs').symm
        have plain : close.isComment = false := by simpa [Token.isComment, Region.splitClosing_kind hs] using hc
        exact .inr ⟨_, _, _, _, rfl, rfl, behind.window found found' plain hinside,
          behind.past found hinside hafter⟩
  · rw [if_neg hk, if_neg hk]
    exact .inl ⟨_, _, _, rfl, rfl, h.fail _⟩

theorem upTo {k : Kind} (hk : k ≠ .comment) :
    (∃ d, r.upTo k = (.error d, r) ∧ r'.upTo k = (.error d, r') ∧ S.Admits d) ∨
      ∃ inner rest inner' rest', r.upTo k = (.ok inner, rest) ∧ r'.upTo k = (.ok inner', rest') ∧
        Option.Rel S.Twin inner inner' ∧ S.Twin rest rest' := by
  unfold Region.upTo
  have splits := congrArg (Region.splitTerminator k 0) h.pending.symm
  rw [Region.splitTerminator_significant hk, Region.splitTerminator_significant hk] at splits
  rw [h.fail_eq]
  rcases Region.cases_of_withoutComments_eq splits with ⟨hs, hs'⟩ |
    ⟨inside, t, after, inside', after', hs, hs', hinside, hafter⟩
  · rw [hs, hs']
    exact .inl ⟨_, rfl, rfl, h.fail _⟩
  · rw [hs, hs']
    have found := (Region.splitTerminator_append hs).symm
    have found' := (Region.splitTerminator_append hs').symm
    have plain : t.isComment = false := by simpa [Token.isComment, Region.splitTerminator_kind hs] using hk
    have twin := h.window found found' plain hinside
    refine .inr ⟨_, _, _, _, rfl, rfl, ?_, h.past found hinside hafter⟩
    rcases h.inside_cases found found' plain hinside with ⟨rfl, rfl⟩ | ⟨u, us, us', rfl, rfl⟩
    · exact .none
    · exact .some twin

end Twin

/-! ### Computations without state -/

namespace Match

variable {α β γ δ : Type} {A : α → β → Prop} {B : γ → δ → Prop} {x : Except Diagnostic α}
  {y : Except Diagnostic β}

theorem bind {f : α → Except Diagnostic γ} {g : β → Except Diagnostic δ} (h : S.Match A x y)
    (hf : ∀ a b, x = .ok a → A a b → S.Match B (f a) (g b)) : S.Match B (x >>= f) (y >>= g) := by
  cases h with
  | ok h => exact hf _ _ rfl h
  | error h => exact .error h

theorem imp {A' : α → β → Prop} (h : S.Match A x y) (hA : ∀ a b, A a b → A' a b) : S.Match A' x y := by
  cases h with
  | ok h => exact .ok (hA _ _ h)
  | error h => exact .error h

theorem yields {Q : α → Prop} (h : S.Match A x y) (hA : ∀ a b, A a b → Q a) : Yields x Q := by
  rintro a rfl
  cases h with
  | ok h => exact hA _ _ h

theorem map {f : α → γ} {g : β → δ} (h : S.Match A x y) (hf : ∀ a b, A a b → B (f a) (g b)) :
    S.Match B (f <$> x) (g <$> y) :=
  h.bind fun a b _ hab => .ok (hf a b hab)

/-- What both do alike. -/
theorem self {source : Source} (hsource : S.locates → source = S.source)
    (hx : Fails x (·.PointsInto source S.span)) : S.Match (· = ·) x x := by
  cases x with
  | ok a => exact .ok rfl
  | error d => exact .error (.of_pointsInto hsource (hx d rfl))

variable {P : α → Region → Prop} {r r' : Region}

theorem read {l : Left r} {l' : Left r'} {x : Except Diagnostic (Step l.toRegion α)}
    {y : Except Diagnostic (Step l'.toRegion α)} (h : S.Match (S.Steps P) x y) :
    S.Match (S.Steps P) (l.read x) (l'.read y) :=
  h.map fun _ _ hab => hab

theorem readKept {l : Kept r} {l' : Kept r'} {x : Except Diagnostic (Step l.toRegion α)}
    {y : Except Diagnostic (Step l'.toRegion α)} (h : S.Match (S.Steps P) x y) :
    S.Match (S.Steps P) (l.read x) (l'.read y) :=
  h.map fun _ _ hab => hab

end Match

/-- What was carved out are twins, and so is what is left. -/
def Carves {r r' : Region} (s : Left r × Left r) (s' : Left r' × Left r') : Prop :=
  S.Twin s.1 s'.1 ∧ S.Twin s.2 s'.2

/-- As `Carves`, where there may be nothing to carve out. -/
def Divides {r r' : Region} (s : Option (Left r) × Left r) (s' : Option (Left r') × Left r') : Prop :=
  Option.Rel (fun (l : Left r) (l' : Left r') => S.Twin l l') s.1 s'.1 ∧ S.Twin s.2 s'.2

variable {S : Survey} {r r' : Region} {o c k : Kind}

theorem Twin.carve (h : S.Twin r r') (ho : o ≠ .comment) (hc : c ≠ .comment) :
    S.Match S.Carves (r.carve o c) (r'.carve o c) := by
  rcases h.enclosed ho hc with ⟨d, _, _, he, he', hd⟩ | ⟨_, _, _, _, he, he', hinner, hrest⟩
  · rw [Region.carve_eq_error he, Region.carve_eq_error he']
    exact .error hd
  · obtain ⟨l, m, heq, rfl, rfl⟩ := Region.carve_eq_ok he
    obtain ⟨l', m', heq', rfl, rfl⟩ := Region.carve_eq_ok he'
    rw [heq, heq']
    exact .ok ⟨hinner, hrest⟩

theorem Twin.carveParens (h : S.Twin r r') : S.Match S.Carves r.carveParens r'.carveParens :=
  h.carve (by decide) (by decide)

theorem Twin.carveBraces (h : S.Twin r r') : S.Match S.Carves r.carveBraces r'.carveBraces :=
  h.carve (by decide) (by decide)

theorem Twin.carveBrackets (h : S.Twin r r') : S.Match S.Carves r.carveBrackets r'.carveBrackets :=
  h.carve (by decide) (by decide)

theorem Twin.divide (h : S.Twin r r') (hk : k ≠ .comment) :
    S.Match S.Divides (r.divide k) (r'.divide k) := by
  rcases h.upTo hk with ⟨d, hu, hu', hd⟩ | ⟨_, _, _, _, hu, hu', hinner, hrest⟩
  · rw [Region.divide_eq_error hu, Region.divide_eq_error hu']
    exact .error hd
  · obtain ⟨l, m, heq, rfl, rfl⟩ := Region.divide_eq_ok hu
    obtain ⟨l', m', heq', rfl, rfl⟩ := Region.divide_eq_ok hu'
    rw [heq, heq']
    refine .ok ⟨?_, hrest⟩
    cases l <;> cases l' <;> cases hinner
    · exact .none
    · exact .some ‹_›

/-! ### What is left of a region -/

section Left

variable {l : Left r} {l' : Left r'}

theorem Twin.leftNext? (h : S.Twin l l') : l.next? = none ∧ l'.next? = none ∨
    ∃ t m m', l.next? = some (t, m) ∧ l'.next? = some (t, m') ∧ t ∈ S.tokens ∧ S.Twin m m' := by
  rcases h.next? with ⟨hn, hn'⟩ | ⟨t, m, m', hn, hn', ht, hm⟩
  · exact .inl ⟨congrArg l.read hn, congrArg l'.read hn'⟩
  · exact .inr ⟨t, l.left m, l'.left m', congrArg l.read hn, congrArg l'.read hn', ht, hm⟩

theorem Twin.leftAccept? (h : S.Twin l l') (k : Kind) : l.accept? k = none ∧ l'.accept? k = none ∨
    ∃ t m m', l.accept? k = some (t, m) ∧ l'.accept? k = some (t, m') ∧ S.Knows k t ∧ S.Twin m m' := by
  rcases h.accept? k with ⟨hn, hn'⟩ | ⟨t, m, m', hn, hn', ht, hm⟩
  · exact .inl ⟨congrArg l.read hn, congrArg l'.read hn'⟩
  · exact .inr ⟨t, l.left m, l'.left m', congrArg l.read hn, congrArg l'.read hn', ht, hm⟩

theorem Twin.leftTake (h : S.Twin l l') (k : Kind) :
    S.Match (S.Steps fun t _ => S.Knows k t) (l.take k) (l'.take k) :=
  (Twin.take h k).read

theorem Twin.leftTakeNamed (h : S.Twin l l') (k : Kind) (what : String) :
    S.Match (S.Steps fun t _ => S.Knows k t) (l.takeNamed k what) (l'.takeNamed k what) :=
  (Twin.takeNamed h k what).read

theorem Twin.leftCarveParens (h : S.Twin l l') : S.Match S.Carves l.carveParens l'.carveParens :=
  (Twin.carveParens h).map fun _ _ hab => hab

theorem Twin.leftCarveBraces (h : S.Twin l l') : S.Match S.Carves l.carveBraces l'.carveBraces :=
  (Twin.carveBraces h).map fun _ _ hab => hab

theorem Twin.leftDivide (h : S.Twin l l') (hk : k ≠ .comment) :
    S.Match S.Divides (l.divide k) (l'.divide k) := by
  refine (Twin.divide h hk).map fun s s' ⟨hinner, hrest⟩ => ⟨?_, hrest⟩
  obtain ⟨inner, rest⟩ := s
  obtain ⟨inner', rest'⟩ := s'
  cases hinner with
  | none => exact .none
  | some hinner => exact .some hinner

theorem Twin.leftOptional (h : S.Twin l l') (k : Kind) :
    S.Steps (fun _ _ => True) (l.optional k) (l'.optional k) := by
  unfold Left.optional
  rcases h.leftAccept? k with ⟨hn, hn'⟩ | ⟨t, m, m', hn, hn', _, hm⟩
  · rw [hn, hn']
    exact ⟨rfl, trivial, h⟩
  · rw [hn, hn']
    exact ⟨rfl, trivial, hm⟩

theorem Twin.keptTake {l : Kept r} {l' : Kept r'} (h : S.Twin l l') (k : Kind) :
    S.Match (S.Steps fun t _ => S.Knows k t) (l.take k) (l'.take k) :=
  (Twin.take h k).readKept

end Left

end Survey
end OnePass
