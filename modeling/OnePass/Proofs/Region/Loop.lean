import OnePass.Proofs.Region.Tokens

/-!
Loops over regions, for any way to reason about single computations. What each round keeps, the loop
keeps; the induction is on the bound for the rounds, and it is done here once for all loops.
-/

namespace OnePass

/-- A way to reason about computations: `Holds p s Q` says that `p`, begun in the state `s`, can only yield
values and states that satisfy `Q`. -/
structure Logic (m : Type → Type) [Monad m] [MonadExceptOf Diagnostic m] where
  State : Type
  Holds {α : Type} : m α → State → (α → State → Prop) → Prop
  pure {α : Type} {a : α} {s : State} {Q : α → State → Prop} : Q a s → Holds (pure a) s Q
  bind {α β : Type} {p : m α} {f : α → m β} {s : State} {P : α → State → Prop}
    {Q : β → State → Prop} :
    Holds p s P → (∀ a s', P a s' → Holds (f a) s' Q) → Holds (p >>= f) s Q
  throw {α : Type} {d : Diagnostic} {s : State} {Q : α → State → Prop} :
    Holds (throw d : m α) s Q

namespace Logic

variable {m : Type → Type} [Monad m] [MonadExceptOf Diagnostic m] (L : Logic m) {σ α : Type}

/-- A round that goes on keeps `I` with what is left, and one that declines makes `D` true. -/
def Ends (I D : Region → σ → L.State → Prop) (r : Region) (v : σ) (o : Option (Step r σ))
    (s : L.State) : Prop :=
  match o with
  | none => D r v s
  | some (v', l) => I l v' s

/-- A round that goes on keeps `I` with what is left, and one that declines leaves all as it is. -/
def Keeps (I : Region → σ → L.State → Prop) : (r : Region) → σ → Option (Step r σ) → L.State → Prop :=
  L.Ends I I

theorem iterate {n : Nat} {I D : Region → σ → L.State → Prop}
    {step : (r : Region) → r.size ≤ n → σ → m (Option (Step r σ))}
    (hstep : ∀ r h v s, I r v s → L.Holds (step r h v) s (L.Ends I D r v)) (k : Nat) (r : Region)
    (hk : r.size ≤ k) (hn : r.size ≤ n) (v : σ) (s : L.State) (h : I r v s) :
    L.Holds (iterate step k r hk hn v) s fun out s' => D out.2 out.1 s' := by
  induction k generalizing r v s with
  | zero =>
      unfold OnePass.iterate
      refine L.bind (hstep r hn v s h) fun o s' ho => ?_
      cases o with
      | none => exact L.pure ho
      | some out => exact absurd (out.2.below hk) (Nat.not_lt_zero _)
  | succ k ih =>
      unfold OnePass.iterate
      refine L.bind (hstep r hn v s h) fun o s' ho => ?_
      cases o with
      | none => exact L.pure ho
      | some out =>
          refine L.bind (ih out.2 _ _ out.1 s' ho) fun out' s'' hout => ?_
          exact L.pure hout

/-- A loop makes true what its last round does. -/
theorem loopUntil {r : Region} {I D : Region → σ → L.State → Prop}
    {step : (r' : Region) → r'.size ≤ r.size → σ → m (Option (Step r' σ))}
    (hstep : ∀ r h v s, I r v s → L.Holds (step r h v) s (L.Ends I D r v)) {v : σ} {s : L.State}
    (h : I r v s) : L.Holds (OnePass.loop r v step) s fun out s' => D out.2 out.1 s' :=
  L.iterate hstep r.size r _ _ v s h

theorem loop {r : Region} {I : Region → σ → L.State → Prop}
    {step : (r' : Region) → r'.size ≤ r.size → σ → m (Option (Step r' σ))}
    (hstep : ∀ r h v s, I r v s → L.Holds (step r h v) s (L.Keeps I r v)) {v : σ} {s : L.State}
    (h : I r v s) : L.Holds (loop r v step) s fun out s' => I out.2 out.1 s' :=
  L.loopUntil hstep h

theorem leftLoop {r : Region} {n : Nat} {l : Left r} {hr : r.size ≤ n}
    {I : Region → σ → L.State → Prop}
    {step : (r' : Region) → r'.size < n → σ → m (Option (Step r' σ))}
    (hstep : ∀ r h v s, I r v s → L.Holds (step r h v) s (L.Keeps I r v)) {v : σ} {s : L.State}
    (h : I l v s) : L.Holds (l.loop hr v step) s fun out s' => I out.2 out.1 s' :=
  L.bind (L.loop (fun r _ => hstep r _) h) fun _ _ hout => L.pure hout

/-- What holds of a region is kept when a comma is read. -/
def PassesCommas (R : Region → L.State → Prop) : Prop :=
  ∀ (r : Region) (l : Left r) (out : Step r Token) (s : L.State), R l s →
    l.accept? .comma = some out → R out.2 s

/-- What holds of the region and of the items so far is kept by one more, up to the end of the region. Of the
place where an item begins more may be known, provided that it is known of the first place and of those behind
a comma. -/
theorem itemsFrom {R B : Region → L.State → Prop} (hcomma : L.PassesCommas R)
    (hbehind : ∀ (r : Region) (l : Left r) (out : Step r Token) (s : L.State), R l s →
      l.accept? .comma = some out → B out.2 s) {r : Region}
    {I : List α → L.State → Prop} {item : (r' : Region) → r'.size ≤ r.size → List α → m (Step r' α)}
    (hitem : ∀ r h before s, R r s → B r s → I before s →
      L.Holds (item r h before) s fun out s' => R out.2 s' ∧ I (before ++ [out.1]) s')
    {s : L.State} (hr : R r s) (hb : B r s) (h : I [] s) :
    L.Holds (items r item) s fun all s' => (∃ rest, R rest s' ∧ rest.hasNext = false) ∧ I all s' := by
  unfold OnePass.items
  refine L.bind (L.loopUntil (I := fun r before s => R r s ∧ (r.hasNext = true → B r s) ∧ I before s)
    (D := fun r before s => (R r s ∧ r.hasNext = false) ∧ I before s) ?_
    ⟨hr, fun _ => hb, h⟩) fun out _ hout => L.pure ⟨⟨_, hout.1⟩, hout.2⟩
  rintro r₀ h₀ before s ⟨hr₀, hb₀, hI⟩
  split
  · rename_i hdone
    exact L.pure ⟨⟨hr₀, by simpa using hdone⟩, hI⟩
  · rename_i hnext
    refine L.bind (hitem r₀ h₀ before s hr₀ (hb₀ (by simpa using hnext)) hI) ?_
    intro ⟨a, r₁⟩ s' ⟨hr₁, ha⟩
    dsimp only
    split
    · rename_i t r₂ hcomma₁
      exact L.pure ⟨hcomma _ r₁ _ _ hr₁ hcomma₁, fun _ => hbehind _ r₁ _ _ hr₁ hcomma₁, ha⟩
    · split
      · exact L.bind L.throw fun _ _ h => h
      · rename_i hdone
        exact L.pure ⟨hr₁, fun hnext => absurd hnext hdone, ha⟩

theorem items {R : Region → L.State → Prop} (hcomma : L.PassesCommas R) {r : Region}
    {I : List α → L.State → Prop} {item : (r' : Region) → r'.size ≤ r.size → List α → m (Step r' α)}
    (hitem : ∀ r h before s, R r s → I before s →
      L.Holds (item r h before) s fun out s' => R out.2 s' ∧ I (before ++ [out.1]) s')
    {s : L.State} (hr : R r s) (h : I [] s) :
    L.Holds (items r item) s fun all s' => (∃ rest, R rest s' ∧ rest.hasNext = false) ∧ I all s' :=
  L.itemsFrom (B := fun _ _ => True) hcomma (fun _ _ _ _ _ _ => trivial)
    (fun r h before s hr _ => hitem r h before s hr) hr trivial h

theorem leftItems {R : Region → L.State → Prop} (hcomma : L.PassesCommas R) {r : Region} {n : Nat}
    {l : Left r} {hr : r.size ≤ n} {I : List α → L.State → Prop}
    {item : (r' : Region) → r'.size < n → List α → m (Step r' α)}
    (hitem : ∀ r h before s, R r s → I before s →
      L.Holds (item r h before) s fun out s' => R out.2 s' ∧ I (before ++ [out.1]) s')
    {s : L.State} (hl : R l s) (h : I [] s) :
    L.Holds (l.items hr item) s fun all s' => (∃ rest, R rest s' ∧ rest.hasNext = false) ∧ I all s' :=
  L.items hcomma (fun r _ => hitem r _) hl h

end Logic

/-- A computation without state yields only what satisfies `Q`. -/
def Yields {α : Type} (x : Except Diagnostic α) (Q : α → Prop) : Prop := ∀ a, x = .ok a → Q a

namespace Yields

variable {α β : Type} {x : Except Diagnostic α} {P : α → Prop} {Q : β → Prop}

theorem pure {a : α} (h : P a) : Yields (pure a) P := fun _ hp => pure_eq_ok.mp hp ▸ h

theorem error {d : Diagnostic} : Yields (.error d) P := nofun

theorem bind {f : α → Except Diagnostic β} (hx : Yields x P) (hf : ∀ a, P a → Yields (f a) Q) :
    Yields (x >>= f) Q := by
  intro b hb
  obtain ⟨a, ha, hb⟩ := bind_eq_ok.mp hb
  exact hf a (hx a ha) b hb

theorem map {f : α → β} (hx : Yields x fun a => Q (f a)) : Yields (f <$> x) Q := by
  intro b hb
  obtain ⟨a, ha, rfl⟩ := map_eq_ok.mp hb
  exact hx a ha

end Yields

/-- Reasoning about computations without state. -/
def Logic.except : Logic (Except Diagnostic) where
  State := Unit
  Holds x _ Q := Yields x fun a => Q a ()
  pure h := Yields.pure h
  bind hp hf := Yields.bind hp fun a ha => hf a () ha
  throw := Yields.error

end OnePass
