import OnePass.Proofs.Region.Tokens

/-!
What is read next, and what is carved out, by equations: from the tokens that are ahead to the regions that are
left. Comments count for nothing in either.
-/

namespace OnePass

open Token (Kind)

namespace Region

/-! ### Lists of tokens without their comments -/

theorem significant_significant (ts : List Token) : significant (significant ts) = significant ts := by
  simp [significant]

theorem settle_significant (ts : List Token) : settle (significant ts) = significant ts := by
  have plain : ∀ t ∈ significant ts, ¬t.isComment = true := by simp [significant]
  unfold settle
  cases h : significant ts with
  | nil => rfl
  | cons t ts' => exact List.dropWhile_cons_of_neg (plain t (h ▸ List.mem_cons_self))

theorem significant_append (as bs : List Token) : significant (as ++ bs) = significant as ++ significant bs :=
  List.filter_append ..

theorem significant_cons {t : Token} (plain : t.isComment = false) (ts : List Token) :
    significant (t :: ts) = t :: significant ts :=
  List.filter_cons_of_pos (by simp [plain])

theorem significant_comment {t : Token} (comment : t.isComment = true) (ts : List Token) :
    significant (t :: ts) = significant ts :=
  List.filter_cons_of_neg (by simp [comment])

theorem isComment_of_settle {t : Token} {ts : List Token} (h : settle (t :: ts) = t :: ts) :
    t.isComment = false := by
  cases hc : t.isComment with
  | false => rfl
  | true =>
      rw [settle, List.dropWhile_cons_of_pos hc] at h
      have := (h ▸ settle_suffix ts : t :: ts <:+ ts).length_le
      exact absurd this (Nat.not_succ_le_self _)

theorem settle_settle (ts : List Token) : settle (settle ts) = settle ts := by
  unfold settle
  cases h : ts.dropWhile Token.isComment with
  | nil => rfl
  | cons t ts' =>
      have plain := List.head_dropWhile_not Token.isComment (l := ts) (by simp [h])
      simp only [h, List.head_cons] at plain
      exact List.dropWhile_cons_of_neg (by simp [plain])

/-- What is left behind `n` tokens begins with a token, which comments do not count for. -/
theorem head?_dropTokens (n : Nat) (ts : List Token) : (dropTokens n ts).head? = (significant ts)[n]? := by
  fun_induction dropTokens n ts with
  | case1 n => simp [significant]
  | case2 n t ts comment ih => rw [ih, significant_comment comment]
  | case3 t ts plain => rw [significant_cons (by simpa using plain)]; rfl
  | case4 t ts plain n ih => rw [ih, significant_cons (by simpa using plain)]; rfl

/-- What a split finds, without comments. -/
def withoutComments : List Token × Token × List Token → List Token × Token × List Token
  | (inside, t, rest) => (significant inside, t, significant rest)

/-- A split that has passed one more token. -/
def passing (t : Token) : List Token × Token × List Token → List Token × Token × List Token
  | (inside, t', rest) => (t :: inside, t', rest)

theorem map_passing_comment {t : Token} (comment : t.isComment = true)
    (o : Option (List Token × Token × List Token)) :
    (o.map (passing t)).map withoutComments = o.map withoutComments := by
  rw [Option.map_map]
  congr 1
  funext ⟨inside, t', rest⟩
  exact congrArg (·, t', significant rest) (significant_comment comment inside)

theorem map_passing {t : Token} (plain : t.isComment = false)
    (o : Option (List Token × Token × List Token)) :
    (o.map (passing t)).map withoutComments = (o.map withoutComments).map (passing t) := by
  rw [Option.map_map, Option.map_map]
  congr 1
  funext ⟨inside, t', rest⟩
  exact congrArg (·, t', significant rest) (significant_cons plain inside)

theorem splitClosing_cons (o c : Kind) (depth : Nat) (t : Token) (ts : List Token) :
    splitClosing o c depth (t :: ts) =
      if t.kind = o then (splitClosing o c (depth + 1) ts).map (passing t)
      else if t.kind = c then
        match depth with
        | 0 => some ([], t, ts)
        | depth + 1 => (splitClosing o c depth ts).map (passing t)
      else (splitClosing o c depth ts).map (passing t) := by
  rw [splitClosing.eq_def]
  rfl

theorem splitTerminator_cons (k : Kind) (depth : Nat) (t : Token) (ts : List Token) :
    splitTerminator k depth (t :: ts) =
      if t.kind = k ∧ depth = 0 then some ([], t, ts)
      else (splitTerminator k (depthAfter depth t.kind) ts).map (passing t) := by
  rw [splitTerminator.eq_def]
  rfl

theorem splitClosing_significant {o c : Kind} (ho : o ≠ .comment) (hc : c ≠ .comment) (depth : Nat)
    (ts : List Token) :
    splitClosing o c depth (significant ts) = (splitClosing o c depth ts).map withoutComments := by
  induction ts generalizing depth with
  | nil => rfl
  | cons t ts ih =>
      cases comment : t.isComment with
      | true =>
          have hk : t.kind = .comment := by simpa [Token.isComment] using comment
          rw [significant_comment comment, splitClosing_cons, if_neg (hk ▸ ho.symm), if_neg (hk ▸ hc.symm),
            map_passing_comment comment, ih]
      | false =>
          rw [significant_cons comment, splitClosing_cons, splitClosing_cons]
          split
          · rw [map_passing comment, ih]
          · split
            · cases depth with
              | zero => rfl
              | succ depth =>
                  dsimp only
                  rw [map_passing comment, ih]
            · rw [map_passing comment, ih]

theorem splitTerminator_significant {k : Kind} (hk : k ≠ .comment) (depth : Nat) (ts : List Token) :
    splitTerminator k depth (significant ts) = (splitTerminator k depth ts).map withoutComments := by
  induction ts generalizing depth with
  | nil => rfl
  | cons t ts ih =>
      cases comment : t.isComment with
      | true =>
          have kind : t.kind = .comment := by simpa [Token.isComment] using comment
          rw [significant_comment comment, splitTerminator_cons, if_neg (fun h => hk (h.1.symm.trans kind)),
            map_passing_comment comment, kind, ih]
          rfl
      | false =>
          rw [significant_cons comment, splitTerminator_cons, splitTerminator_cons]
          split
          · rfl
          · rw [map_passing comment, ih]

/-! ### Regions -/

variable {r : Region} {o c k : Kind}

theorem next?_eq_none (ha : r.ahead = []) : r.next? = none := by
  unfold next?
  split
  · rfl
  · simp_all

theorem next?_eq_some {t : Token} {ts : List Token} (ha : r.ahead = t :: ts) :
    ∃ l : Left r, r.next? = some (t, l) ∧ l.toRegion = r.behind t ts := by
  unfold next?
  split
  · simp_all
  · rename_i t' ts' ha'
    obtain ⟨rfl, rfl⟩ := List.cons.inj (ha.symm.trans ha')
    exact ⟨_, rfl, rfl⟩

/-- A token of another kind is not taken. -/
theorem accept?_of_ne (h : ∀ t ∈ r.ahead.head?, t.kind ≠ k) : r.accept? k = none := by
  unfold accept?
  cases ha : r.ahead with
  | nil => rw [next?_eq_none ha]; rfl
  | cons t ts =>
      obtain ⟨l, hnext, _⟩ := next?_eq_some ha
      simp [hnext, h t (by rw [ha]; rfl)]

theorem carve_eq_ok {inner rest : Region} (h : r.enclosed o c = (.ok inner, rest)) :
    ∃ l l' : Left r, r.carve o c = .ok (l, l') ∧ l.toRegion = inner ∧ l'.toRegion = rest := by
  unfold carve
  split
  · rename_i he
    obtain ⟨hinner, rfl⟩ := Prod.mk.inj (h.symm.trans he)
    obtain rfl := Except.ok.inj hinner
    exact ⟨_, _, rfl, rfl, rfl⟩
  · rename_i he
    cases h.symm.trans he

theorem carve_eq_error {d : Diagnostic} {rest : Region} (h : r.enclosed o c = (.error d, rest)) :
    r.carve o c = .error d := by
  unfold carve
  split
  · rename_i he
    cases h.symm.trans he
  · rename_i he
    exact congrArg _ (Except.error.inj (congrArg Prod.fst (he.symm.trans h)))

theorem divide_eq_ok {inner : Option Region} {rest : Region} (h : r.upTo k = (.ok inner, rest)) :
    ∃ (l : Option (Left r)) (l' : Left r), r.divide k = .ok (l, l') ∧ l.map (·.toRegion) = inner ∧
      l'.toRegion = rest := by
  unfold divide
  split
  · rename_i he
    obtain ⟨hinner, rfl⟩ := Prod.mk.inj (h.symm.trans he)
    obtain rfl := Except.ok.inj hinner
    exact ⟨_, _, rfl, rfl, rfl⟩
  · rename_i he
    obtain ⟨hinner, rfl⟩ := Prod.mk.inj (h.symm.trans he)
    obtain rfl := Except.ok.inj hinner
    exact ⟨_, _, rfl, rfl, rfl⟩
  · rename_i he
    cases h.symm.trans he

theorem divide_eq_error {d : Diagnostic} {rest : Region} (h : r.upTo k = (.error d, rest)) :
    r.divide k = .error d := by
  unfold divide
  split
  · rename_i he
    cases h.symm.trans he
  · rename_i he
    cases h.symm.trans he
  · rename_i he
    exact congrArg _ (Except.error.inj (congrArg Prod.fst (he.symm.trans h)))

end Region

theorem Left.accept?_of_ne {r : Region} {l : Left r} {k : Kind} (h : ∀ t ∈ l.ahead.head?, t.kind ≠ k) :
    l.accept? k = none := by
  rw [Left.accept?, Region.accept?_of_ne h]
  rfl

end OnePass
