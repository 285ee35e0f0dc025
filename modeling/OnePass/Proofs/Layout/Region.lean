import OnePass.Proofs.Region.Carve
import OnePass.Proofs.Token.Extent

/-!
How far reading gets. Whatever reads from a region reads tokens from its front: it counts those that are no
comments, remembers the last of them, and leaves the rest. What is carved out of a region has fewer tokens
than the region, and the region goes on behind it.

What was read spares the imports if the word `import` is not among it.

In an orderly region each token stands behind the one before it, all of them within the text; so the place
where something begins and the token that was read last are the ends of a span with all that was read in it.
-/

namespace OnePass

open Token (Kind)

/-- Neither that of a comment nor that of the word `import`. -/
def Token.Kind.isPlain (k : Kind) : Bool := k ≠ .comment && k ≠ .kwImport

theorem Token.Kind.isPlain_iff {k : Kind} : k.isPlain = true ↔ k ≠ .comment ∧ k ≠ .kwImport := by
  simp [isPlain]

/-- The one begins and ends no later than the other. -/
structure Span.Precedes (a b : Span) : Prop where
  start : a.start ≤ b.start
  stop : a.stop ≤ b.stop

namespace Span.Precedes

variable {a b : Span}

theorem refl (a : Span) : a.Precedes a := ⟨Nat.le_refl _, Nat.le_refl _⟩

theorem of_le (ha : a.start ≤ a.stop) (hb : b.start ≤ b.stop) (h : a.stop ≤ b.start) : a.Precedes b :=
  ⟨Nat.le_trans ha h, Nat.le_trans h hb⟩

theorem merge_eq (h : a.Precedes b) : a.merge b = ⟨a.start, b.stop, a.file⟩ := by
  rw [Span.merge, Nat.min_eq_left h.start, Nat.max_eq_right h.stop]

end Span.Precedes

namespace Region

/-- No comment stands at the front. -/
def Settled (r : Region) : Prop := settle r.ahead = r.ahead

/-- The tokens `ts` were read from the front of `r`, and `r'` is left. -/
structure Reads (r : Region) (ts : List Token) (r' : Region) : Prop where
  ahead : r.ahead = ts ++ r'.ahead
  taken : r'.taken = r.taken + (significant ts).length
  last : r'.last = ((significant ts).getLast?.map (·.span)).getD r.last
  stop : r'.stop = r.stop
  source : r'.source = r.source
  settled : r.Settled → r'.Settled

/-- Something was read from the front of `r`, or nothing, and `r'` is left. -/
def Leaves (r r' : Region) : Prop := ∃ ts, r.Reads ts r'

/-- Something was read from the front of `r`, or nothing, but no import, and `r'` is left. -/
def Spares (r r' : Region) : Prop := ∃ ts, r.Reads ts r' ∧ ∀ t ∈ ts, t.kind ≠ .kwImport

/-- The token `t` was read from the front of `r`, and `r'` is left. -/
structure Takes (r : Region) (t : Token) (r' : Region) : Prop where
  head : r.head = t
  spares : r.Spares r'
  shorter : r'.size < r.size

/-- Each token stands behind the one before it, all lie within the text, and those ahead are not empty. -/
structure Orderly (source : Source) (r : Region) : Prop where
  settled : r.Settled
  ordered : (r.last :: (r.ahead ++ [r.stop]).map (·.span)).Pairwise (·.stop ≤ ·.start)
  within : ∀ s ∈ r.last :: (r.ahead ++ [r.stop]).map (·.span), s.Within source
  solid : ∀ t ∈ r.ahead, t.span.start < t.span.stop

/-- The region `inner` was carved out of `r`, and `rest` is left behind it. -/
structure Carves (r inner rest : Region) : Prop where
  leaves : r.Leaves rest
  settled : inner.Settled
  fewer : inner.remaining < r.remaining
  orderly {source : Source} : r.Orderly source → inner.Orderly source
  begins {source : Source} : r.Orderly source → r.head.span.start ≤ inner.head.span.start
  ends {source : Source} : r.Orderly source → inner.stop.span.start < rest.last.stop

/-- The region `inner` was carved out of `r`, with no import around it, and `rest` is left. -/
structure Encloses (r inner rest : Region) : Prop extends r.Carves inner rest where
  around : ∃ before after, r.Reads (before ++ inner.ahead ++ after) rest ∧
    ∀ t ∈ before ++ after, t.kind ≠ .kwImport

variable {r r' r'' : Region} {ts us : List Token} {k : Kind} {source : Source}

/-! ### Reading on -/

namespace Reads

theorem refl (r : Region) : r.Reads [] r := ⟨rfl, rfl, rfl, rfl, rfl, id⟩

theorem trans (h : r.Reads ts r') (h' : r'.Reads us r'') : r.Reads (ts ++ us) r'' where
  ahead := by rw [h.ahead, h'.ahead, List.append_assoc]
  taken := by rw [h'.taken, h.taken, significant_append, List.length_append, Nat.add_assoc]
  last := by
    rw [h'.last, h.last, significant_append, List.getLast?_append]
    cases (significant us).getLast? <;> rfl
  stop := h'.stop.trans h.stop
  source := h'.source.trans h.source
  settled := h'.settled ∘ h.settled

/-- From the front of a settled region nothing is read, or a token that is no comment. -/
theorem eq_nil_or (h : r.Reads ts r') (hr : r.Settled) :
    ts = [] ∨ ∃ t us, ts = t :: us ∧ t.isComment = false ∧ r.head = t := by
  cases ts with
  | nil => exact .inl rfl
  | cons t us =>
      have ahead : r.ahead = t :: (us ++ r'.ahead) := h.ahead
      rw [Settled, ahead] at hr
      refine .inr ⟨t, us, rfl, isComment_of_settle hr, ?_⟩
      rw [head, ahead, List.headD_cons]

/-- The token read last is one of those that were read, if any was. -/
theorem last_cases (h : r.Reads ts r') (hr : r.Settled) :
    (ts = [] ∧ r'.last = r.last) ∨ ∃ before t after, ts = before ++ t :: after ∧ r'.last = t.span := by
  rcases h.eq_nil_or hr with rfl | ⟨t, us, rfl, plain, _⟩
  · exact .inl ⟨rfl, h.last⟩
  · have some : significant (t :: us) ≠ [] := significant_cons plain us ▸ List.cons_ne_nil _ _
    have hu := List.getLast?_eq_some_getLast some
    obtain ⟨before, after, he⟩ := List.append_of_mem (List.mem_of_mem_filter (List.getLast_mem some))
    exact .inr ⟨before, _, after, he, by rw [h.last, hu]; rfl⟩

/-- What is left of an orderly region is orderly. -/
theorem orderly (h : r.Reads ts r') (hr : r.Orderly source) : r'.Orderly source := by
  have trail : (r'.last :: (r'.ahead ++ [r'.stop]).map (·.span)).Sublist
      (r.last :: (r.ahead ++ [r.stop]).map (·.span)) := by
    rw [h.ahead, h.stop]
    rcases h.last_cases hr.settled with ⟨rfl, hlast⟩ | ⟨before, t, after, rfl, hlast⟩
    · rw [hlast]
      exact List.Sublist.refl _
    · rw [hlast]
      simp only [List.append_assoc, List.cons_append, List.map_append, List.map_cons]
      refine .cons _ (.trans (.cons_cons _ ?_) (List.sublist_append_right _ _))
      exact List.sublist_append_right _ _
  refine ⟨h.settled hr.settled, hr.ordered.sublist trail, fun s hs => hr.within s (trail.subset hs), fun t ht => ?_⟩
  exact hr.solid t (h.ahead ▸ List.mem_append_right ts ht)

end Reads

theorem head_mem (r : Region) : r.head ∈ r.ahead ++ [r.stop] := by
  unfold head
  cases r.ahead <;> exact List.mem_cons_self

namespace Orderly

variable (hr : r.Orderly source)

include hr

theorem last_within : r.last.Within source := hr.within _ List.mem_cons_self

theorem head_within : r.head.span.Within source :=
  hr.within _ (List.mem_cons_of_mem _ (List.mem_map_of_mem r.head_mem))

theorem head_solid (h : 0 < r.size) : r.head.span.start < r.head.span.stop := by
  have ahead : r.head ∈ r.ahead := by
    rw [head, List.headD_eq_head?_getD, List.head?_eq_some_head (List.length_pos_iff.mp h)]
    exact List.head_mem _
  exact hr.solid r.head ahead

/-- The next token stands behind the one read last. -/
theorem last_le_head : r.last.stop ≤ r.head.span.start :=
  (List.pairwise_cons.mp hr.ordered).1 _ (List.mem_map_of_mem r.head_mem)

theorem last_le_stop : r.last.stop ≤ r.stop.span.start :=
  (List.pairwise_cons.mp hr.ordered).1 _ (List.mem_map_of_mem (by simp))

end Orderly

namespace Reads

variable (h : r.Reads ts r') (hr : r.Orderly source)

include h hr

theorem last_precedes : r.last.Precedes r'.last := by
  rcases h.last_cases hr.settled with ⟨_, hlast⟩ | ⟨before, t, after, rfl, hlast⟩
  · rw [hlast]
    exact .refl _
  · have within := (h.orderly hr).last_within
    rw [hlast] at within ⊢
    refine .of_le hr.last_within.ordered within.ordered ?_
    refine (List.pairwise_cons.mp hr.ordered).1 _ (List.mem_map_of_mem ?_)
    simp [h.ahead]

/-- What was read begins with the next token and ends with the one read last. -/
theorem head_precedes (hlt : r'.size < r.size) : r.head.span.Precedes r'.last := by
  rcases h.last_cases hr.settled with ⟨rfl, _⟩ | ⟨before, t, after, rfl, hlast⟩
  · simp [size, h.ahead] at hlt
  · rw [hlast]
    have ordered := (List.pairwise_cons.mp hr.ordered).2
    cases before with
    | nil =>
        have head : r.head = t := by simp [Region.head, h.ahead]
        rw [head]
        exact .refl _
    | cons u us =>
        have head : r.head = u := by simp [Region.head, h.ahead]
        have within := (h.orderly hr).last_within
        rw [hlast] at within
        rw [head]
        refine .of_le (head ▸ hr.head_within.ordered) within.ordered ?_
        simp only [h.ahead, List.cons_append, List.map_cons, List.append_assoc, List.map_append] at ordered
        exact (List.pairwise_cons.mp ordered).1 _ (by simp)

theorem head_le : r.head.span.start ≤ r'.head.span.start := by
  by_cases hlt : r'.size < r.size
  · have first := h.head_precedes hr hlt
    have next := (h.orderly hr).last_le_head
    have := (h.orderly hr).last_within.ordered
    exact Nat.le_trans first.start (Nat.le_trans this next)
  · have none : ts.length = 0 := by
      simp only [size, h.ahead, List.length_append] at hlt
      omega
    have same : r'.head = r.head := by
      rw [head, head, h.ahead, List.length_eq_zero_iff.mp none, h.stop]
      rfl
    exact Nat.le_of_eq (by rw [same])

end Reads

/-! ### Single tokens -/

/-- A token that is told from comments and imports is plain. -/
theorem isPlain_of_ne {α : Type} (f : Kind → α) (h : f k ≠ f .comment) (h' : f k ≠ f .kwImport) :
    k.isPlain = true :=
  Token.Kind.isPlain_iff.mpr ⟨fun hk => h (hk ▸ rfl), fun hk => h' (hk ▸ rfl)⟩

/-- As `isPlain_of_ne`, for what has a value. -/
theorem isPlain_of_some {α : Type} {f : Kind → Option α} {a : α} (hf : f .comment = none ∧ f .kwImport = none)
    (h : f k = some a) : k.isPlain = true := by
  obtain ⟨hcomment, himport⟩ := hf
  exact isPlain_of_ne f (by simp [h, hcomment]) (by simp [h, himport])

theorem isComment_of_isPlain {t : Token} (h : t.kind.isPlain = true) : t.isComment = false := by
  simpa [Token.isComment] using (Token.Kind.isPlain_iff.mp h).1

theorem kind_of_comment {t : Token} (h : t.isComment = true) : t.kind ≠ .kwImport := by
  have kind : t.kind = .comment := by simpa [Token.isComment] using h
  rw [kind]
  decide

/-- There are no imports among comments. -/
theorem comments_spare (ts : List Token) : ∀ t ∈ ts.takeWhile Token.isComment, t.kind ≠ .kwImport :=
  fun t ht => kind_of_comment (List.all_eq_true.mp List.all_takeWhile t ht)

theorem significant_comments (ts : List Token) : significant (ts.takeWhile Token.isComment) = [] := by
  refine List.filter_eq_nil_iff.mpr fun t ht => ?_
  simpa using List.all_eq_true.mp List.all_takeWhile t ht

theorem reads_behind {t : Token} (ha : r.ahead = t :: ts) (plain : t.isComment = false) :
    r.Reads (t :: ts.takeWhile Token.isComment) (r.behind t ts) where
  ahead := by rw [ha, List.cons_append, behind, settle, List.takeWhile_append_dropWhile]
  taken := by rw [significant_cons plain, significant_comments]; rfl
  last := by rw [significant_cons plain, significant_comments]; rfl
  stop := rfl
  source := rfl
  settled _ := settle_settle ts

theorem next?_reads {t : Token} {l : Left r} (h : r.next? = some (t, l)) (plain : t.isComment = false) :
    r.head = t ∧ ∃ comments, r.Reads (t :: comments) l ∧ ∀ u ∈ comments, u.isComment = true := by
  unfold next? at h
  split at h
  · cases h
  · rename_i ha
    obtain ⟨rfl, rfl⟩ := Prod.mk.inj (Option.some.inj h)
    exact ⟨by rw [head, ha, List.headD_cons], _, reads_behind ha plain,
      fun u hu => List.all_eq_true.mp List.all_takeWhile u hu⟩

theorem next?_takes {t : Token} {l : Left r} (h : r.next? = some (t, l)) (plain : t.kind.isPlain = true) :
    r.Takes t l := by
  obtain ⟨hhead, comments, reads, hcomments⟩ := next?_reads h (isComment_of_isPlain plain)
  refine ⟨hhead, ⟨_, reads, List.forall_mem_cons.mpr ⟨(Token.Kind.isPlain_iff.mp plain).2, fun u hu => ?_⟩⟩, l.shorter⟩
  exact kind_of_comment (hcomments u hu)

theorem accept?_takes (hk : k.isPlain = true) {t : Token} {l : Left r} (h : r.accept? k = some (t, l)) :
    r.Takes t l := by
  obtain ⟨hn, hkind⟩ := Option.filter_eq_some_iff.mp h
  have kind : t.kind = k := by simpa using hkind
  exact next?_takes hn (kind ▸ hk)

/-- The next token was read, which is of some kind, and the comments behind it. -/
theorem accept?_reads (hk : k ≠ .comment) {t : Token} {l : Left r} (h : r.accept? k = some (t, l)) :
    r.head = t ∧ ∃ ts, r.Reads ts l ∧ significant ts = [t] ∧ t.kind = k := by
  obtain ⟨hn, hkind⟩ := Option.filter_eq_some_iff.mp h
  have kind : t.kind = k := by simpa using hkind
  have plain : t.isComment = false := by simpa [Token.isComment, kind] using hk
  obtain ⟨hhead, comments, reads, hcomments⟩ := next?_reads hn plain
  refine ⟨hhead, _, reads, ?_, kind⟩
  rw [significant_cons plain, significant, List.filter_eq_nil_iff.mpr (by simpa using hcomments)]

theorem takeOr_takes (hk : k.isPlain = true) {fault : Fault} {t : Token} {l : Left r}
    (h : r.takeOr k fault = .ok (t, l)) : r.Takes t l :=
  accept?_takes hk (accept?_of_takeOr h)

/-! ### Regions inside regions -/

theorem reads_past {inside rest : List Token} {t : Token} (ha : r.ahead = inside ++ t :: rest)
    (plain : t.isComment = false) :
    r.Reads (inside ++ t :: rest.takeWhile Token.isComment) (r.past inside t rest) where
  ahead := by
    rw [ha, List.append_assoc, List.cons_append, past, settle, List.takeWhile_append_dropWhile]
  taken := by
    rw [past, significant_append, significant_append, significant_cons plain, significant_cons plain,
      significant_comments]
    rfl
  last := by
    rw [significant_append, significant_cons plain, significant_comments, List.getLast?_concat]
    rfl
  stop := rfl
  source := rfl
  settled _ := settle_settle rest

/-- A window begins where its first token does, or where the token behind it does if there is none. -/
theorem window_last (r : Region) (inside rest : List Token) (t : Token) :
    ∃ first more, inside ++ [t] = first :: more ∧
      (r.window inside (t :: rest)).last = first.span.opening := by
  cases inside with
  | nil => exact ⟨t, [], rfl, rfl⟩
  | cons u us => exact ⟨u, us ++ [t], rfl, rfl⟩

theorem Orderly.window (hr : r.Orderly source) {inside rest : List Token} {t : Token}
    (ha : r.ahead = inside ++ t :: rest) : (r.window inside (t :: rest)).Orderly source := by
  have part : ((inside ++ [t]).map (·.span)).Sublist ((r.ahead ++ [r.stop]).map (·.span)) := by
    have split : r.ahead ++ [r.stop] = (inside ++ [t]) ++ (rest ++ [r.stop]) := by simp [ha]
    rw [split]
    exact (List.sublist_append_left _ _).map _
  have ordered := (List.pairwise_cons.mp hr.ordered).2.sublist part
  have within : ∀ u ∈ inside ++ [t], u.span.Within source := fun u hu =>
    hr.within _ (List.mem_cons_of_mem _ (part.subset (List.mem_map_of_mem hu)))
  obtain ⟨first, more, hfirst, hlast⟩ := r.window_last inside rest t
  have first_le : ∀ u ∈ inside ++ [t], first.span.start ≤ u.span.start := by
    rw [hfirst] at ordered within ⊢
    intro u hu
    rcases List.mem_cons.mp hu with rfl | hu
    · exact Nat.le_refl _
    · have := (List.pairwise_cons.mp ordered).1 _ (List.mem_map_of_mem hu)
      exact Nat.le_trans (within first List.mem_cons_self).ordered this
  have kept := (settle_suffix inside).sublist
  -- each span of the window is that of a token in front of `t`, or the place where `t` begins
  have cases : ∀ s ∈ (settle inside ++ [Token.sentinel t.span.opening]).map (·.span),
      (∃ u ∈ inside, s = u.span) ∨ s = t.span.opening := by
    intro s hs
    obtain ⟨u, hu, rfl⟩ := List.mem_map.mp hs
    rcases List.mem_append.mp hu with hu | hu
    · exact .inl ⟨u, kept.subset hu, rfl⟩
    · exact .inr (congrArg Token.span (List.mem_singleton.mp hu))
  refine ⟨settle_settle inside, List.pairwise_cons.mpr ⟨?_, ?_⟩, List.forall_mem_cons.mpr ⟨?_, ?_⟩, fun u hu => ?_⟩
  · rw [hlast]
    intro s hs
    rcases cases s hs with ⟨u, hu, rfl⟩ | rfl
    · exact first_le u (List.mem_append_left _ hu)
    · exact first_le t (by simp)
  · rw [List.map_append, List.pairwise_append] at ordered ⊢
    refine ⟨ordered.1.sublist (kept.map _), List.pairwise_singleton _ _, fun a ha b hb => ?_⟩
    obtain rfl := List.mem_singleton.mp hb
    exact ordered.2.2 a ((kept.map _).subset ha) t.span List.mem_cons_self
  · rw [hlast]
    exact (within first (hfirst ▸ List.mem_cons_self)).opening
  · intro s hs
    rcases cases s hs with ⟨u, hu, rfl⟩ | rfl
    · exact within u (List.mem_append_left _ hu)
    · exact (within t (by simp)).opening
  · exact hr.solid u (ha ▸ List.mem_append_left _ (kept.subset hu))

theorem carves_window {inside rest : List Token} {t : Token} (ha : r.ahead = inside ++ t :: rest)
    (plain : t.isComment = false) : r.Carves (r.window inside (t :: rest)) (r.past inside t rest) where
  leaves := ⟨_, reads_past ha plain⟩
  settled := settle_settle inside
  fewer := by
    have whole : r.remaining = (significant inside).length + ((significant rest).length + 1) := by
      rw [remaining, pending, ha, significant_append, significant_cons plain, List.length_append,
        List.length_cons]
    have inner : (r.window inside (t :: rest)).remaining = (significant inside).length :=
      congrArg List.length (significant_settle inside)
    omega
  orderly hr := hr.window ha
  begins hr := by
    obtain ⟨first, more, hfirst, hlast⟩ := r.window_last inside rest t
    have head : r.head = first := by
      have split : r.ahead = first :: (more ++ rest) := by rw [ha, List.append_cons, hfirst, List.cons_append]
      rw [Region.head, split, List.headD_cons]
    have := (hr.window ha).last_le_head
    rw [hlast] at this
    rw [head]
    exact this
  ends hr := hr.solid t (by simp [ha])

theorem encloses_window {inside rest : List Token} {t : Token} (ha : r.ahead = inside ++ t :: rest)
    (plain : t.kind.isPlain = true) : r.Encloses (r.window inside (t :: rest)) (r.past inside t rest) where
  toCarves := carves_window ha (isComment_of_isPlain plain)
  around := by
    refine ⟨inside.takeWhile Token.isComment, t :: rest.takeWhile Token.isComment, ?_, ?_⟩
    · have whole : inside.takeWhile Token.isComment ++ (r.window inside (t :: rest)).ahead = inside :=
        List.takeWhile_append_dropWhile
      rw [whole]
      exact reads_past ha (isComment_of_isPlain plain)
    · refine List.forall_mem_append.mpr ⟨comments_spare inside, List.forall_mem_cons.mpr ⟨?_, comments_spare rest⟩⟩
      exact (Token.Kind.isPlain_iff.mp plain).2

theorem Leaves.remaining_le (h : r.Leaves r') : r'.remaining ≤ r.remaining := by
  obtain ⟨ts, h⟩ := h
  rw [remaining, remaining, pending, pending, h.ahead, significant_append, List.length_append]
  exact Nat.le_add_left _ _

theorem Leaves.size_le (h : r.Leaves r') : r'.size ≤ r.size := by
  obtain ⟨ts, h⟩ := h
  rw [size, size, h.ahead, List.length_append]
  exact Nat.le_add_left _ _

theorem Spares.leaves (h : r.Spares r') : r.Leaves r' :=
  let ⟨ts, reads, _⟩ := h
  ⟨ts, reads⟩

theorem Spares.refl (r : Region) : r.Spares r := ⟨[], .refl r, nofun⟩

theorem Spares.trans (h : r.Spares r') (h' : r'.Spares r'') : r.Spares r'' :=
  let ⟨_, reads, spares⟩ := h
  let ⟨_, reads', spares'⟩ := h'
  ⟨_, reads.trans reads', List.forall_mem_append.mpr ⟨spares, spares'⟩⟩

theorem Carves.behind {inner rest : Region} (h : r.Leaves r') (hc : r'.Carves inner rest) :
    r.Carves inner rest where
  leaves :=
    let ⟨_, h₁⟩ := h
    let ⟨_, h₂⟩ := hc.leaves
    ⟨_, h₁.trans h₂⟩
  settled := hc.settled
  fewer := Nat.lt_of_lt_of_le hc.fewer h.remaining_le
  orderly hr :=
    let ⟨_, h⟩ := h
    hc.orderly (h.orderly hr)
  begins hr :=
    let ⟨_, h⟩ := h
    Nat.le_trans (h.head_le hr) (hc.begins (h.orderly hr))
  ends hr :=
    let ⟨_, h⟩ := h
    hc.ends (h.orderly hr)

theorem Encloses.behind {inner rest : Region} (h : r.Spares r') (hc : r'.Encloses inner rest) :
    r.Encloses inner rest where
  toCarves := .behind h.leaves hc.toCarves
  around := by
    obtain ⟨ts, reads, spares⟩ := h
    obtain ⟨before, after, inside, plain⟩ := hc.around
    refine ⟨ts ++ before, after, ?_, ?_⟩
    · rw [List.append_assoc, List.append_assoc, ← List.append_assoc before]
      exact reads.trans inside
    · rw [List.append_assoc]
      exact List.forall_mem_append.mpr ⟨spares, plain⟩

/-- What is carved out has no imports if they are spared up to its end. -/
theorem Encloses.spares {inner rest l : Region} (hc : r.Encloses inner rest) (h : inner.Spares l)
    (hl : l.hasNext = false) : r.Spares rest := by
  obtain ⟨ts, reads, spares⟩ := h
  obtain ⟨before, after, inside, plain⟩ := hc.around
  have none : l.ahead = [] := by simpa [hasNext] using hl
  obtain ⟨hbefore, hafter⟩ := List.forall_mem_append.mp plain
  refine ⟨_, inside, ?_⟩
  rw [reads.ahead, none, List.append_nil]
  exact List.forall_mem_append.mpr ⟨List.forall_mem_append.mpr ⟨hbefore, spares⟩, hafter⟩

theorem Spares.pending {l : Region} (h : r.Spares l) (hl : l.hasNext = false) :
    ∀ t ∈ r.pending, t.kind ≠ .kwImport := by
  obtain ⟨ts, reads, spares⟩ := h
  have none : l.ahead = [] := by simpa [hasNext] using hl
  rw [Region.pending, reads.ahead, none, List.append_nil]
  exact fun t ht => spares t (List.mem_of_mem_filter ht)

theorem hasNext_of_finish {u : Unit} (h : r.finish = .ok u) : r.hasNext = false := by
  unfold finish at h
  split at h
  · cases h
  · exact Bool.eq_false_iff.mpr ‹_›

theorem splitClosing_kind {o c : Kind} {depth : Nat} {inside rest : List Token} {t : Token}
    (h : splitClosing o c depth ts = some (inside, t, rest)) : t.kind = c := by
  fun_induction splitClosing o c depth ts generalizing inside t rest <;>
    grind [Option.map_eq_some_iff]

theorem splitTerminator_kind {depth : Nat} {inside rest : List Token} {t : Token}
    (h : splitTerminator k depth ts = some (inside, t, rest)) : t.kind = k := by
  fun_induction splitTerminator k depth ts generalizing inside t rest <;>
    grind [Option.map_eq_some_iff]

theorem carve_cases {o c : Kind} {inner rest : Left r} (h : r.carve o c = .ok (inner, rest)) :
    ∃ t ts inside close after, r.ahead = t :: ts ∧ t.kind = o ∧ close.kind = c ∧
      (r.behind t ts).ahead = inside ++ close :: after ∧
      inner.toRegion = (r.behind t ts).window inside (close :: after) ∧
      rest.toRegion = (r.behind t ts).past inside close after := by
  unfold carve at h
  split at h
  · rename_i he
    obtain ⟨rfl, rfl⟩ := Prod.mk.inj (Except.ok.inj h)
    obtain ⟨t, ts, inside, close, after, ahead, hk, hs, rfl, rfl⟩ := enclosed_eq_ok he
    exact ⟨t, ts, inside, close, after, ahead, hk, splitClosing_kind hs, (splitClosing_append hs).symm, rfl, rfl⟩
  · cases h

theorem carve_carves {o c : Kind} (ho : o ≠ .comment) (hc : c ≠ .comment) {inner rest : Left r}
    (h : r.carve o c = .ok (inner, rest)) : r.Carves inner rest := by
  obtain ⟨t, ts, inside, close, after, ahead, hk, hclose, hs, hinner, hrest⟩ := carve_cases h
  have opening : t.isComment = false := by simpa [Token.isComment, hk] using ho
  have closing : close.isComment = false := by simpa [Token.isComment, hclose] using hc
  rw [hinner, hrest]
  exact .behind ⟨_, reads_behind ahead opening⟩ (carves_window hs closing)

theorem carve_encloses {o c : Kind} (ho : o.isPlain = true) (hc : c.isPlain = true) {inner rest : Left r}
    (h : r.carve o c = .ok (inner, rest)) : r.Encloses inner rest := by
  obtain ⟨t, ts, inside, close, after, ahead, hk, hclose, hs, hinner, hrest⟩ := carve_cases h
  rw [hinner, hrest]
  refine .behind ⟨_, reads_behind ahead (isComment_of_isPlain (hk ▸ ho)), ?_⟩ (encloses_window hs (hclose ▸ hc))
  exact List.forall_mem_cons.mpr ⟨hk ▸ (Token.Kind.isPlain_iff.mp ho).2, comments_spare ts⟩

/-- The tokens of a region in delimiters, with these around them. -/
theorem carve_reads {o c : Kind} (ho : o ≠ .comment) (hc : c ≠ .comment) {inner rest : Left r}
    (h : r.carve o c = .ok (inner, rest)) :
    ∃ ts opening closing, r.Reads ts rest ∧ significant ts = opening :: (inner.pending ++ [closing]) ∧
      opening.kind = o ∧ closing.kind = c := by
  obtain ⟨t, ts, inside, close, after, ahead, hk, hclose, hs, hinner, hrest⟩ := carve_cases h
  have opening : t.isComment = false := by simpa [Token.isComment, hk] using ho
  have closing : close.isComment = false := by simpa [Token.isComment, hclose] using hc
  rw [hinner, hrest]
  refine ⟨_, t, close, (reads_behind ahead opening).trans (reads_past hs closing), ?_, hk, hclose⟩
  rw [significant_append, significant_cons opening, significant_comments, significant_append,
    significant_cons closing, significant_comments, pending]
  exact congrArg (t :: · ++ [close]) (significant_settle inside).symm

theorem carveParens_encloses {inner rest : Left r} (h : r.carveParens = .ok (inner, rest)) :
    r.Encloses inner rest :=
  carve_encloses (by decide) (by decide) h

theorem carveBraces_encloses {inner rest : Left r} (h : r.carveBraces = .ok (inner, rest)) :
    r.Encloses inner rest :=
  carve_encloses (by decide) (by decide) h

theorem carveBrackets_encloses {inner rest : Left r} (h : r.carveBrackets = .ok (inner, rest)) :
    r.Encloses inner rest :=
  carve_encloses (by decide) (by decide) h

theorem divide_cases {inner : Option (Left r)} {rest : Left r} (h : r.divide k = .ok (inner, rest)) :
    ∃ inside t after, r.ahead = inside ++ t :: after ∧ t.kind = k ∧ rest.toRegion = r.past inside t after ∧
      (inner = none ∧ inside = [] ∨ ∃ l : Left r, inner = some l ∧ l.toRegion = r.window inside (t :: after)) := by
  unfold divide at h
  split at h
  · rename_i hu
    obtain ⟨rfl, rfl⟩ := Prod.mk.inj (Except.ok.inj h)
    obtain ⟨inside, t, after, hs, hinner, hrest⟩ := upTo_eq_ok hu
    refine ⟨inside, t, after, (splitTerminator_append hs).symm, splitTerminator_kind hs, hrest, .inr ⟨_, rfl, ?_⟩⟩
    split at hinner
    · cases hinner
    · exact Option.some.inj hinner
  · rename_i hu
    obtain ⟨rfl, rfl⟩ := Prod.mk.inj (Except.ok.inj h)
    obtain ⟨inside, t, after, hs, hinner, hrest⟩ := upTo_eq_ok hu
    refine ⟨inside, t, after, (splitTerminator_append hs).symm, splitTerminator_kind hs, hrest, .inl ⟨rfl, ?_⟩⟩
    split at hinner
    · exact List.isEmpty_iff.mp ‹_›
    · cases hinner
  · cases h

theorem divide_carves (hk : k ≠ .comment) {inner : Option (Left r)} {rest : Left r}
    (h : r.divide k = .ok (inner, rest)) : r.Leaves rest ∧ ∀ l ∈ inner, r.Carves l rest := by
  obtain ⟨inside, t, after, ahead, hkind, hrest, hinner⟩ := divide_cases h
  have plain : t.isComment = false := by simpa [Token.isComment, hkind] using hk
  have carves := carves_window ahead plain
  rw [hrest]
  refine ⟨carves.leaves, fun l hl => ?_⟩
  rcases hinner with ⟨rfl, _⟩ | ⟨l', rfl, hl'⟩
  · cases hl
  · rw [← Option.some.inj hl, hl']
    exact carves

theorem divide_encloses (hk : k.isPlain = true) {inner : Option (Left r)} {rest : Left r}
    (h : r.divide k = .ok (inner, rest)) : (inner = none → r.Spares rest) ∧ ∀ l ∈ inner, r.Encloses l rest := by
  obtain ⟨inside, t, after, ahead, hkind, hrest, hinner⟩ := divide_cases h
  have plain : t.kind.isPlain = true := hkind ▸ hk
  rw [hrest]
  rcases hinner with ⟨rfl, rfl⟩ | ⟨l', rfl, hl'⟩
  · refine ⟨fun _ => ⟨_, reads_past ahead (isComment_of_isPlain plain), ?_⟩, nofun⟩
    exact List.forall_mem_cons.mpr ⟨(Token.Kind.isPlain_iff.mp plain).2, comments_spare after⟩
  · refine ⟨nofun, fun l hl => ?_⟩
    rw [← Option.some.inj hl, hl']
    exact encloses_window ahead plain

end Region

/-! ### What is left of a region -/

section Left

variable {r : Region} {k : Kind} {l : Left r} {t : Token} {l' : Left r}

theorem Left.next?_takes (h : l.next? = some (t, l')) (plain : t.kind.isPlain = true) : l.Takes t l' := by
  obtain ⟨⟨_, rest⟩, hs, heq⟩ := Option.map_eq_some_iff.mp h
  obtain ⟨rfl, rfl⟩ := Prod.mk.inj heq
  exact Region.next?_takes hs plain

theorem Left.accept?_takes (hk : k.isPlain = true) (h : l.accept? k = some (t, l')) : l.Takes t l' := by
  obtain ⟨rest, hs, heq⟩ := Left.accept?_eq_some h
  rw [heq]
  exact Region.accept?_takes hk hs

theorem Left.accept?_reads (hk : k ≠ .comment) (h : l.accept? k = some (t, l')) :
    l.head = t ∧ ∃ ts, l.Reads ts l' ∧ Region.significant ts = [t] ∧ t.kind = k := by
  obtain ⟨rest, hs, heq⟩ := Left.accept?_eq_some h
  rw [heq]
  exact Region.accept?_reads hk hs

theorem Left.takeNamed_takes (hk : k.isPlain = true) {what : String} (h : l.takeNamed k what = .ok (t, l')) :
    l.Takes t l' := by
  obtain ⟨⟨_, rest⟩, hs, heq⟩ := map_eq_ok.mp h
  obtain ⟨rfl, rfl⟩ := Prod.mk.inj heq
  exact Region.takeOr_takes hk hs

theorem Left.take_takes (hk : k.isPlain = true) (h : l.take k = .ok (t, l')) : l.Takes t l' := by
  obtain ⟨⟨_, rest⟩, hs, heq⟩ := map_eq_ok.mp h
  obtain ⟨rfl, rfl⟩ := Prod.mk.inj heq
  exact Region.takeOr_takes hk hs

theorem Left.take_reads (hk : k ≠ .comment) (h : l.take k = .ok (t, l')) :
    l.head = t ∧ ∃ ts, l.Reads ts l' ∧ Region.significant ts = [t] ∧ t.kind = k := by
  obtain ⟨⟨_, rest⟩, hs, heq⟩ := map_eq_ok.mp h
  obtain ⟨rfl, rfl⟩ := Prod.mk.inj heq
  exact Region.accept?_reads hk (Region.accept?_of_takeOr hs)

theorem Kept.take_takes (hk : k.isPlain = true) {kept : Kept r} (h : kept.take k = .ok (t, l')) :
    kept.Takes t l' := by
  obtain ⟨⟨_, rest⟩, hs, heq⟩ := map_eq_ok.mp h
  obtain ⟨rfl, rfl⟩ := Prod.mk.inj heq
  exact Region.takeOr_takes hk hs

theorem Left.optional_spares (hk : k.isPlain = true) : l.Spares (l.optional k).2 := by
  unfold optional
  split
  · rename_i h
    exact (accept?_takes hk h).spares
  · exact .refl _

theorem Left.carveParens_encloses {inner rest : Left r} (h : l.carveParens = .ok (inner, rest)) :
    l.Encloses inner rest := by
  obtain ⟨⟨_, _⟩, hs, heq⟩ := map_eq_ok.mp h
  obtain ⟨rfl, rfl⟩ := Prod.mk.inj heq
  exact Region.carveParens_encloses hs

theorem Left.carveBraces_encloses {inner rest : Left r} (h : l.carveBraces = .ok (inner, rest)) :
    l.Encloses inner rest := by
  obtain ⟨⟨_, _⟩, hs, heq⟩ := map_eq_ok.mp h
  obtain ⟨rfl, rfl⟩ := Prod.mk.inj heq
  exact Region.carveBraces_encloses hs

theorem Left.divide_encloses (hk : k.isPlain = true) {inner : Option (Left r)} {rest : Left r}
    (h : l.divide k = .ok (inner, rest)) :
    (inner = none → l.Spares rest) ∧ ∀ i ∈ inner, l.Encloses i rest := by
  obtain ⟨⟨found, _⟩, hs, heq⟩ := map_eq_ok.mp h
  obtain ⟨rfl, rfl⟩ := Prod.mk.inj heq
  obtain ⟨hspares, hencloses⟩ := Region.divide_encloses hk hs
  refine ⟨fun hnone => hspares (Option.map_eq_none_iff.mp hnone), fun i hi => ?_⟩
  obtain ⟨j, hj, rfl⟩ := Option.map_eq_some_iff.mp hi
  exact hencloses j hj

end Left

end OnePass
