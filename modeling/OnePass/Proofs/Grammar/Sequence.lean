import OnePass.Grammar.Unit

/-!
Reading one thing after another. A loop is one round and then the loop over what is left; how far it may
go is no matter. So the statements of a region are its first and then those of the rest, and the rest is
read in the very context that the first was read in, as if it stood alone: nothing of what the first has
opened is left over but in the registry.
-/

namespace OnePass

section Loops

variable {m : Type → Type} [Monad m] {σ α : Type}

/-- The bounds do not matter, as long as they are bounds. -/
theorem iterate_congr {n n' : Nat} {step : (r : Region) → r.size ≤ n → σ → m (Option (Step r σ))}
    {step' : (r : Region) → r.size ≤ n' → σ → m (Option (Step r σ))}
    (hstep : ∀ r h h' s, step r h s = step' r h' s) (k k' : Nat) (r : Region) (hk : r.size ≤ k)
    (hk' : r.size ≤ k') (hn : r.size ≤ n) (hn' : r.size ≤ n') (s : σ) :
    iterate step k r hk hn s = iterate step' k' r hk' hn' s := by
  generalize hsize : r.size = size
  induction size using Nat.strongRecOn generalizing k k' r s with
  | _ size ih =>
      unfold iterate
      rw [hstep r hn hn' s]
      congr 1
      funext o
      rcases o with _ | ⟨v, l⟩
      · rfl
      · match k, k', hk, hk' with
        | 0, _, hk, _ => exact absurd (l.below hk) (Nat.not_lt_zero _)
        | _, 0, _, hk' => exact absurd (l.below hk') (Nat.not_lt_zero _)
        | k + 1, k' + 1, _, _ =>
            dsimp only
            rw [ih l.size (hsize ▸ l.shorter) k k' l _ _ _ (l.within hn') v rfl]

/-- The loop over what is left of a region. -/
def Left.goOn {r : Region} (l : Left r) (s : σ)
    (step : (r' : Region) → r'.size ≤ r.size → σ → m (Option (Step r' σ))) : m (Rest r σ) := do
  let (v, rest) ← OnePass.loop l.toRegion s fun r' h => step r' (Nat.le_trans h (l.within r.size_le))
  return (v, (l.leftOfKept rest).kept)

/-- A loop is one round and then the loop over what is left. -/
theorem loop_eq (r : Region) (s : σ)
    (step : (r' : Region) → r'.size ≤ r.size → σ → m (Option (Step r' σ))) :
    loop r s step = (do
      match ← step r r.size_le s with
      | none => return (s, .whole r)
      | some (s', l) => l.goOn s' step) := by
  have longer : loop r s step = iterate step (r.size + 1) r (Nat.le_succ _) r.size_le s :=
    iterate_congr (fun _ _ _ _ => rfl) _ _ _ _ _ _ _ _
  rw [longer]
  unfold iterate
  congr 1
  funext o
  rcases o with _ | ⟨v, l⟩
  · rfl
  · unfold Left.goOn loop
    refine congrArg (· >>= _) (iterate_congr ?_ _ _ _ _ _ _ _ _)
    exact fun _ _ _ _ => rfl

variable [LawfulMonad m]

/-- Where a round only adds to what there is, a loop adds to what there was. -/
theorem loop_append (r : Region) (before : List α)
    (step : (r' : Region) → r'.size ≤ r.size → List α → m (Option (Step r' (List α))))
    (hstep : ∀ r' h before, step r' h before =
      (fun o => o.map fun (v, l) => (before ++ v, l)) <$> step r' h []) :
    loop r before step = (fun (v, rest) => (before ++ v, rest)) <$> loop r [] step := by
  generalize hsize : r.size = size
  induction size using Nat.strongRecOn generalizing r before with
  | _ size ih =>
      rw [loop_eq r before, loop_eq r [], hstep r _ before, map_eq_pure_bind, map_eq_pure_bind, bind_assoc,
        bind_assoc]
      congr 1
      funext o
      rcases o with _ | ⟨v, l⟩
      · simp
      · simp only [pure_bind, Option.map_some]
        unfold Left.goOn
        have shift (before : List α) := ih l.size (hsize ▸ l.shorter) l.toRegion before
          (fun r' h => step r' (Nat.le_trans h (l.within r.size_le))) (fun r' h => hstep r' _) rfl
        rw [shift (before ++ v), shift v]
        simp

section Left

variable {r : Region} {n : Nat} {l : Left r} {h : r.size ≤ n} {s : σ}
  {step : (r' : Region) → r'.size < n → σ → m (Option (Step r' σ))}

/-- A loop that ends at once. -/
theorem Left.loop_of_none (hstep : step l.toRegion (l.below h) s = pure none) : l.loop h s step = pure (s, l) := by
  unfold Left.loop
  rw [loop_eq, hstep]
  simp only [pure_bind]
  rfl

/-- A loop that goes on behind its first round. -/
theorem Left.loop_of_some {s' : σ} {l' : Left l.toRegion}
    (hstep : step l.toRegion (l.below h) s = pure (some (s', l'))) :
    l.loop h s step = (l.left l').loop h s' step := by
  unfold Left.loop
  rw [loop_eq, hstep]
  simp only [pure_bind, Left.goOn, bind_assoc]
  rfl

end Left

/-- Items are read one after the other, where none is told those before it. -/
theorem items_eq [MonadExceptOf Diagnostic m]
    (hthrow : ∀ {β γ : Type} (d : Diagnostic) (f : β → m γ), (throw d : m β) >>= f = throw d)
    (item : (r : Region) → m (Step r α)) (r : Region) (hnext : r.hasNext = true) :
    items r (fun r₀ _ _ => item r₀) = (do
      let (a, l) ← item r
      match l.accept? .comma with
      | some (_, l') => (a :: ·) <$> items l'.toRegion fun r₀ _ _ => item r₀
      | none =>
        if l.hasNext then throw (l.fail (.unexpectedToken l.head.lexeme))
        return [a]) := by
  unfold items
  rw [loop_eq]
  simp only [hnext, Bool.not_true, Bool.false_eq_true, if_false, bind_assoc, List.nil_append]
  congr 1
  funext x
  obtain ⟨a, l⟩ := x
  dsimp only
  rcases hcomma : l.accept? .comma with _ | ⟨t, l'⟩
  · by_cases hmore : l.hasNext = true
    · simp only [hmore, if_true, hthrow]
    · unfold Left.goOn
      simp only [hmore, Bool.false_eq_true, if_false, pure_bind]
      rw [loop_eq]
      simp [hmore]
  · unfold Left.goOn
    simp only [pure_bind]
    rw [loop_append l'.toRegion [a]]
    · simp
    · intro r₀ h₀ before
      dsimp only
      split
      · simp
      · rw [map_bind]
        congr 1
        funext x
        obtain ⟨a', l₀⟩ := x
        dsimp only
        split
        · simp
        · split
          · rw [map_eq_pure_bind, hthrow, hthrow, hthrow]
          · simp

end Loops

namespace Grammar

/-- The statement that a region begins with. -/
def statementAt (ctx : Context) (r : Region) : Parse (Step r Stmt) :=
  (below (r.size + 1)).statement ctx r r.size_lt

/-- The expression that a region begins with. -/
def expressionAt (ctx : Context) (r : Region) : Parse (Step r Expr) :=
  (below (r.size + 1)).expression ctx r r.size_lt

theorem statement_below_eq {n : Nat} (ctx : Context) (r : Region) (h : r.size < n) :
    (below n).statement ctx r h = statementAt ctx r :=
  congrArg (fun b : Below Parse (r.size + 1) => b.statement ctx r r.size_lt)
    (restrict_below_eq (Nat.succ_le_of_lt h) (Nat.le_refl _))

theorem expression_below_eq {n : Nat} (ctx : Context) (r : Region) (h : r.size < n) :
    (below n).expression ctx r h = expressionAt ctx r :=
  congrArg (fun b : Below Parse (r.size + 1) => b.expression ctx r r.size_lt)
    (restrict_below_eq (Nat.succ_le_of_lt h) (Nat.le_refl _))

/-- Statements are read one after the other, all in one context. -/
theorem allStatements_eq (ctx : Context) (r : Region) (hnext : r.hasNext = true)
    (hsemi : r.accept? .semicolon = none) :
    allStatements ctx r = (do
      let (s, l) ← statementAt ctx r
      let (ss, rest) ← allStatements ctx l
      return (s :: ss, (l.leftOfKept rest).kept)) := by
  unfold allStatements statements
  rw [loop_eq]
  simp only [hnext, hsemi, statement_below_eq, Bool.not_true, Bool.false_eq_true, if_false, bind_assoc,
    pure_bind, List.nil_append]
  congr 1
  funext x
  obtain ⟨s, l⟩ := x
  unfold Left.goOn
  rw [loop_append l.toRegion [s]]
  · simp
  · intro r₀ h₀ before
    dsimp only
    split
    · simp
    · split <;> simp

end Grammar
end OnePass
