import OnePass.Proofs.Grammar.Gives
import OnePass.Proofs.Grammar.Sequence
import OnePass.Proofs.Grammar.Tracked
import OnePass.Proofs.Twin.Region

/-!
Reading twins. `Survey.Alike σ A p q` says of two computations, one for a region and one for its twin, that
from any registry both end with the same registry, and either both fail with the same diagnostic or they
yield what `A` relates. The first is told by its context where it is. The second has a parser whose marks
are `σ`, and if it succeeds they are the same as before. Of the diagnostic it is said that it points into the
file, but for one thing that a declaration may fail with. As for single computations there is a rule for each
thing that a production does.
-/

namespace OnePass

/-- The declaration of a variable with a type and a value, somewhere in a file, has been read up to its check,
and it cannot be said whether the variable takes the value: the value has a type, but an element of it has
none. -/
def Grammar.Misdeclares (source : Source) (tokens : List Token) (reg : Registry) (d : Diagnostic) : Prop :=
  ∃ (ctx : Context) (r : Region) (l l₁ l₂ : Left r) (declared : Ty) (span : Span) (assign : Token)
    (value : Expr) (rest : Left l₂.toRegion) (reg₀ reg₁ : Registry),
    ctx.source = source ∧ l.source = source ∧ l.ahead <:+: tokens ∧
    ( annotation ctx l : Parse (Step r (Option (Ty × Span)))).run.run reg₀ = (.ok (some (declared, span), l₁), reg₁) ∧
    l₁.accept? .assign = some (assign, l₂) ∧
    (expressionAt ctx l₂).run.run reg₁ = (.ok (value, rest), reg) ∧
    Typing.Setting.Undecided ⟨reg, ctx.scope, source⟩ declared value d

open Grammar

/-! ### What comes of a production -/

/-- With any registry, `p` returns only what satisfies `Q`. -/
def Returns {α : Type} (p : Parse α) (Q : α → Prop) : Prop :=
  ∀ reg a reg', p.run.run reg = (.ok a, reg') → Q a

namespace Returns

variable {α β : Type} {P : α → Prop} {Q : β → Prop}

theorem pure {a : α} (h : P a) : Returns (pure a) P := by
  rintro reg _ _ ⟨⟩
  exact h

theorem throw {d : Diagnostic} : Returns (throw d : Parse α) P := by
  rintro reg _ _ ⟨⟩

theorem bind {p : Parse α} {f : α → Parse β} (hp : Returns p P) (hf : ∀ a, P a → Returns (f a) Q) :
    Returns (p >>= f) Q := by
  intro reg b reg' h
  rw [run_bind] at h
  rcases he : p.run.run reg with ⟨d | a, reg₁⟩
  · rw [he] at h
    cases h
  · rw [he] at h
    exact hf a (hp reg a reg₁ he) reg₁ b reg' h

/-- What is done to the registry, or asked of it, is of no account. -/
theorem skip {p : Parse α} {f : α → Parse β} (hf : ∀ a, Returns (f a) Q) : Returns (p >>= f) Q :=
  bind (P := fun _ => True) (fun _ _ _ _ => trivial) fun a _ => hf a

theorem lift {x : Except Diagnostic α} {f : α → Parse β} (hf : ∀ a, x = .ok a → Returns (f a) Q) :
    Returns (liftM x >>= f) Q := by
  cases x with
  | ok a => exact hf a rfl
  | error => exact throw

end Returns

/-! ### Loops -/

/-- A round of two loops: both decline, where `D` holds, or both go on with the same, for which `I` holds, and with
twins. -/
inductive Survey.Round (S : Survey) {σ : Type} (I D : σ → Region → Prop) (v : σ) {r r' : Region} :
    Option (Step r σ) → Option (Step r' σ) → Prop where
  | stop (h : D v r) : Round S I D v none none
  | go {s : Step r σ} {s' : Step r' σ} (h : S.Steps I s s') : Round S I D v (some s) (some s')

/-- A way to reason about two computations at once: both fail alike, or what they yield is related. -/
structure Pairing (S : Survey) (m m' : Type → Type) [Monad m] [MonadExceptOf Diagnostic m] [Monad m']
    [MonadExceptOf Diagnostic m'] where
  Holds {α β : Type} : (α → β → Prop) → m α → m' β → Prop
  pure {α β : Type} {A : α → β → Prop} {a : α} {b : β} : A a b → Holds A (pure a) (pure b)
  bind {α β γ δ : Type} {A : α → β → Prop} {B : γ → δ → Prop} {p : m α} {q : m' β} {f : α → m γ}
    {g : β → m' δ} : Holds A p q → (∀ a b, A a b → Holds B (f a) (g b)) → Holds B (p >>= f) (q >>= g)
  throw {α β : Type} {A : α → β → Prop} {d : Diagnostic} : S.Admits d → Holds A (throw d) (throw d)

namespace Pairing

variable {S : Survey} {m m' : Type → Type} [Monad m] [MonadExceptOf Diagnostic m] [Monad m']
  [MonadExceptOf Diagnostic m'] (L : Pairing S m m') {σ α : Type} {I D : σ → Region → Prop}

/-- The bounds of two loops need not be the same. -/
theorem iterate {n n' : Nat} {step : (r : Region) → r.size ≤ n → σ → m (Option (Step r σ))}
    {step' : (r : Region) → r.size ≤ n' → σ → m' (Option (Step r σ))}
    (hstep : ∀ r r' h h' v, S.Twin r r' → I v r → L.Holds (S.Round I D v) (step r h v) (step' r' h' v))
    (k k' : Nat) {r r' : Region} (hr : S.Twin r r') (hk : r.size ≤ k) (hk' : r'.size ≤ k') (hn : r.size ≤ n)
    (hn' : r'.size ≤ n') {v : σ} (hv : I v r) :
    L.Holds (S.Rests D) (iterate step k r hk hn v) (iterate step' k' r' hk' hn' v) := by
  induction k generalizing k' r r' v with
  | zero =>
      unfold OnePass.iterate
      refine L.bind (hstep r r' hn hn' v hr hv) fun o o' ho => ?_
      cases ho with
      | stop h => exact L.pure ⟨rfl, h, hr⟩
      | @go out => exact absurd (out.2.below hk) (Nat.not_lt_zero _)
  | succ k ih =>
      unfold OnePass.iterate
      refine L.bind (hstep r r' hn hn' v hr hv) fun o o' ho => ?_
      cases ho with
      | stop h => exact L.pure ⟨rfl, h, hr⟩
      | @go out out' ho =>
          obtain ⟨v₁, l⟩ := out
          obtain ⟨_, l'⟩ := out'
          obtain ⟨rfl, hv₁, hl⟩ := ho
          cases k' with
          | zero => exact absurd (l'.below hk') (Nat.not_lt_zero _)
          | succ k' =>
              refine L.bind (ih k' hl _ _ _ _ hv₁) ?_
              rintro ⟨v₂, rest⟩ ⟨_, rest'⟩ ⟨rfl, hv₂, hrest⟩
              exact L.pure ⟨rfl, hv₂, hrest⟩

theorem loop {r r' : Region} {step : (r₀ : Region) → r₀.size ≤ r.size → σ → m (Option (Step r₀ σ))}
    {step' : (r₀ : Region) → r₀.size ≤ r'.size → σ → m' (Option (Step r₀ σ))}
    (hstep : ∀ r r' h h' v, S.Twin r r' → I v r → L.Holds (S.Round I D v) (step r h v) (step' r' h' v))
    (hr : S.Twin r r') {v : σ} (hv : I v r) : L.Holds (S.Rests D) (loop r v step) (loop r' v step') :=
  L.iterate hstep _ _ hr _ _ _ _ hv

theorem leftLoop {r r' : Region} {n n' : Nat} {l : Left r} {l' : Left r'}
    {hn : r.size ≤ n} {hn' : r'.size ≤ n'} {step : (r₀ : Region) → r₀.size < n → σ → m (Option (Step r₀ σ))}
    {step' : (r₀ : Region) → r₀.size < n' → σ → m' (Option (Step r₀ σ))}
    (hstep : ∀ r r' h h' v, S.Twin r r' → I v r → L.Holds (S.Round I D v) (step r h v) (step' r' h' v))
    (hl : S.Twin l l') {v : σ} (hv : I v l) :
    L.Holds (S.Steps D) (l.loop hn v step) (l'.loop hn' v step') := by
  refine L.bind (L.loop (fun r r' _ _ => hstep r r' _ _) hl hv) ?_
  rintro ⟨v₁, rest⟩ ⟨_, rest'⟩ ⟨rfl, hv₁, hrest⟩
  exact L.pure ⟨rfl, hv₁, hrest⟩

/-- Items up to the end of a region. What holds of those read so far and of what is left is kept by one more, and
by the comma behind it. -/
theorem items {I : List α → Region → Prop}
    (hcomma : ∀ all (r : Region) (l m : Left r) t, I all l → l.accept? .comma = some (t, m) → I all m)
    {r r' : Region} {item : (r₀ : Region) → r₀.size ≤ r.size → List α → m (Step r₀ α)}
    {item' : (r₀ : Region) → r₀.size ≤ r'.size → List α → m' (Step r₀ α)}
    (hitem : ∀ r r' h h' before, S.Twin r r' → I before r →
      L.Holds (S.Steps fun a l => I (before ++ [a]) l) (item r h before) (item' r' h' before))
    (hr : S.Twin r r') (h : I [] r) :
    L.Holds (fun all all' => all = all' ∧ ∃ l, I all l ∧ l.hasNext = false) (items r item) (items r' item') := by
  unfold OnePass.items
  refine L.bind (L.loop (I := I) (D := fun all l => I all l ∧ l.hasNext = false) ?_ hr h) ?_
  · intro r₀ r₀' h h' before hr₀ hbefore
    rw [hr₀.hasNext_eq]
    split
    · rename_i hdone
      exact L.pure (.stop ⟨hbefore, by simpa using hdone⟩)
    · refine L.bind (hitem r₀ r₀' h h' before hr₀ hbefore) ?_
      rintro ⟨a, l⟩ ⟨_, l'⟩ ⟨rfl, ha, hl⟩
      dsimp only
      rcases hl.leftAccept? .comma with ⟨hn, hn'⟩ | ⟨t, m, m', hn, hn', _, hm⟩
      · rw [hn, hn', hl.hasNext_eq, hl.head_eq, hl.fail_eq]
        dsimp only
        split
        · exact L.bind (L.throw (hl.fail _)) fun _ _ h => h
        · exact L.pure (.go ⟨rfl, ha, hl⟩)
      · rw [hn, hn']
        exact L.pure (.go ⟨rfl, hcomma _ _ l m t ha hn, hm⟩)
  · rintro ⟨all, rest⟩ ⟨_, rest'⟩ ⟨rfl, hall, _⟩
    exact L.pure ⟨rfl, rest, hall⟩

theorem leftItems {I : List α → Region → Prop}
    (hcomma : ∀ all (r : Region) (l m : Left r) t, I all l → l.accept? .comma = some (t, m) → I all m)
    {r r' : Region} {n n' : Nat} {l : Left r} {l' : Left r'} {hn : r.size ≤ n} {hn' : r'.size ≤ n'}
    {item : (r₀ : Region) → r₀.size < n → List α → m (Step r₀ α)}
    {item' : (r₀ : Region) → r₀.size < n' → List α → m' (Step r₀ α)}
    (hitem : ∀ r r' h h' before, S.Twin r r' → I before r →
      L.Holds (S.Steps fun a l => I (before ++ [a]) l) (item r h before) (item' r' h' before))
    (hl : S.Twin l l') (h : I [] l) :
    L.Holds (fun all all' => all = all' ∧ ∃ rest, I all rest ∧ rest.hasNext = false) (l.items hn item)
      (l'.items hn' item') :=
  L.items hcomma (fun r r' _ _ => hitem r r' _ _) hl h

end Pairing

namespace Survey

variable (S : Survey)

/-- Two computations without state. -/
def exceptPairing : Pairing S (Except Diagnostic) (Except Diagnostic) where
  Holds := S.Match
  pure := .ok
  bind h hf := h.bind fun a b _ => hf a b
  throw := .error

/-! ### Productions -/

/-- What reading may fail with when the registry is there. -/
def Excuses (reg : Registry) (d : Diagnostic) : Prop :=
  S.locates → S.Locates d ∨ Misdeclares S.source S.tokens reg d

/-- The context is one of the file, and the marks say what it says. No struct is declared, for its fields have
no statements or expressions in them. -/
structure Meets (σ : Marks) (ctx : Context) : Prop where
  source : S.locates → ctx.source = S.source
  depth : σ.depth = ctx.depth
  inLoop : σ.inLoop = ctx.inLoop
  routine : σ.routine = ctx.routine
  declaring : σ.declaring = none

/-- Two runs end with the same registry, in the same failure or with what is related and the marks `σ`. -/
inductive Outcome {α β : Type} (σ : Marks) (A : α → β → Prop) :
    Except Diagnostic α × Registry → Except Diagnostic β × Parser → Prop where
  | ok {a : α} {b : β} {reg : Registry} (h : A a b) : Outcome σ A (.ok a, reg) (.ok b, ⟨reg, σ⟩)
  | error {d : Diagnostic} {reg : Registry} {σ' : Marks} (h : S.Excuses reg d) :
      Outcome σ A (.error d, reg) (.error d, ⟨reg, σ'⟩)

/-- Two computations are alike. -/
def Alike {α β : Type} (σ : Marks) (A : α → β → Prop) (p : Parse α) (q : Tracked β) : Prop :=
  ∀ reg, S.Outcome σ A (p.run.run reg) (q.run.run ⟨reg, σ⟩)

/-- A part was read from `o` on, the same from both, and twins are left. -/
def Makes {α : Type} (d : Nat) (o : Region) (part : α → Part) {r r' : Region} : Step r α → Step r' α → Prop :=
  S.Steps fun a l => Lays S d o l [part a]

/-- Parts were read that take up all of the region `o`. -/
def Fills {α : Type} (d : Nat) (o : Region) (parts : α → List Part) (a b : α) : Prop :=
  a = b ∧ ∃ l, Lays S d o l (parts a) ∧ l.hasNext = false

variable {S} {σ : Marks} {α β γ δ : Type} {A : α → β → Prop} {B : γ → δ → Prop}

theorem Admits.excuses {d : Diagnostic} (h : S.Admits d) (reg : Registry) : S.Excuses reg d :=
  fun located => .inl (h located)

section Makes

variable {d d' : Nat} {o o' r r' : Region} {part : α → Part} {s : Step r α} {s' : Step r' α}

theorem Makes.after (h : S.Makes d o' part s s') (ho : o.Spares o') : S.Makes d o part s s' :=
  ⟨h.1, .after ho h.2.1, h.2.2⟩

theorem Makes.mono (h : S.Makes d' o part s s') (hle : d ≤ d') : S.Makes d o part s s' :=
  ⟨h.1, h.2.1.mono hle, h.2.2⟩

end Makes

theorem Meets.inScope {ctx : Context} (h : S.Meets σ ctx) (scope : ScopeId) : S.Meets σ { ctx with scope } :=
  { h with }

theorem Outcome.bind {p : Parse α} {q : Tracked β} {f : α → Parse γ} {g : β → Tracked δ} {reg : Registry}
    (h : S.Outcome σ A (p.run.run reg) (q.run.run ⟨reg, σ⟩))
    (hf : ∀ a b reg₁, p.run.run reg = (.ok a, reg₁) → A a b →
      S.Outcome σ B ((f a).run.run reg₁) ((g b).run.run ⟨reg₁, σ⟩)) :
    S.Outcome σ B ((p >>= f).run.run reg) ((q >>= g).run.run ⟨reg, σ⟩) := by
  rw [run_bind, run_bind]
  generalize hp : p.run.run reg = x at h
  generalize q.run.run ⟨reg, σ⟩ = y at h
  cases h with
  | ok hab => exact hf _ _ _ hp hab
  | error hd => exact .error hd

namespace Alike

theorem pure {a : α} {b : β} (h : A a b) : S.Alike σ A (pure a) (pure b) := fun _ => .ok h

theorem bind {p : Parse α} {q : Tracked β} {f : α → Parse γ} {g : β → Tracked δ} (h : S.Alike σ A p q)
    (hf : ∀ a b, A a b → S.Alike σ B (f a) (g b)) : S.Alike σ B (p >>= f) (q >>= g) :=
  fun reg => (h reg).bind fun a b reg₁ _ hab => hf a b hab reg₁

theorem throw {d : Diagnostic} (h : S.Admits d) : S.Alike σ A (throw d) (throw d) :=
  fun reg => .error (h.excuses reg)

theorem imp {A' : α → β → Prop} {p : Parse α} {q : Tracked β} (h : S.Alike σ A p q) (hA : ∀ a b, A a b → A' a b) :
    S.Alike σ A' p q := by
  intro reg
  have outcome := h reg
  generalize p.run.run reg = x at outcome
  generalize q.run.run ⟨reg, σ⟩ = y at outcome
  cases outcome with
  | ok hab => exact .ok (hA _ _ hab)
  | error hd => exact .error hd

theorem map {p : Parse α} {q : Tracked β} {f : α → γ} {g : β → δ} (h : S.Alike σ A p q)
    (hf : ∀ a b, A a b → B (f a) (g b)) : S.Alike σ B (f <$> p) (g <$> q) :=
  bind h fun a b hab => pure (hf a b hab)

theorem lift {x : Except Diagnostic α} {y : Except Diagnostic β} {f : α → Parse γ} {g : β → Tracked δ}
    (h : S.Match A x y) (hf : ∀ a b, x = .ok a → A a b → S.Alike σ B (f a) (g b)) :
    S.Alike σ B (liftM x >>= f) (liftM y >>= g) := by
  cases h with
  | ok hab => exact hf _ _ rfl hab
  | error hd => exact fun reg => .error (hd.excuses reg)

theorem liftLast {x : Except Diagnostic α} {y : Except Diagnostic β} (h : S.Match A x y) :
    S.Alike σ A (liftM x) (liftM y) := by
  cases h with
  | ok hab => exact fun _ => .ok hab
  | error hd => exact fun reg => .error (hd.excuses reg)

theorem get {f : Registry → Parse γ} {g : Registry → Tracked δ} (hf : ∀ reg, S.Alike σ B (f reg) (g reg)) :
    S.Alike σ B (get >>= f) (get >>= g) :=
  fun reg => hf reg reg

theorem mapM {f : α → Parse β} {g : α → Tracked β} {as : List α} (h : ∀ a ∈ as, S.Alike σ (· = ·) (f a) (g a)) :
    S.Alike σ (· = ·) (as.mapM f) (as.mapM g) := by
  induction as with
  | nil => exact pure rfl
  | cons a as ih =>
      obtain ⟨ha, has⟩ := List.forall_mem_cons.mp h
      rw [List.mapM_cons, List.mapM_cons]
      refine bind ha fun b _ hb => bind (ih has) fun bs _ hbs => pure ?_
      rw [hb, hbs]

/-- What is done to the registry is the same for both. -/
theorem modifyGet {h : Registry → α × Registry} {f : α → Parse γ} {g : α → Tracked δ}
    (hf : ∀ a, S.Alike σ B (f a) (g a)) :
    S.Alike σ B ((modifyGet h : Parse α) >>= f) ((modifyGet h : Tracked α) >>= g) :=
  fun reg => hf (h reg).1 (h reg).2

/-- A failure under a condition, and what is done otherwise. -/
theorem guard {c : Prop} [Decidable c] {d : Diagnostic} {f : PUnit → Parse γ} {g : PUnit → Tracked δ}
    (hd : S.Admits d) (hf : ¬c → S.Alike σ B (f ()) (g ())) :
    S.Alike σ B (if c then (MonadExcept.throw d : Parse PUnit) >>= f else f ())
      (if c then (MonadExcept.throw d : Tracked PUnit) >>= g else g ()) := by
  split
  · exact fun reg => .error (hd.excuses reg)
  · exact hf ‹_›

/-- A mark that has been made is taken back. -/
theorem leaving {change : Marks → Marks} {σ' : Marks} (hchange : change σ' = σ) {p : Parse α} {q : Tracked β}
    (h : S.Alike σ' A p q) (reg : Registry) :
    S.Outcome σ A (p.run.run reg) ((Tracked.leaving change q).run.run ⟨reg, σ'⟩) := by
  rw [Tracked.leaving_run]
  have outcome := h reg
  generalize p.run.run reg = x at outcome
  generalize q.run.run ⟨reg, σ'⟩ = y at outcome
  cases outcome with
  | ok hab => exact hchange ▸ .ok hab
  | error hd => exact .error hd

section Context

variable {ctx : Context} (hctx : S.Meets σ ctx)

include hctx

theorem fail {fault : Fault} {span : Span} (h : S.span span) :
    S.Alike σ A (ctx.fail fault span) (ctx.place.fail fault span) :=
  throw (.located hctx.source h)

theorem checks {test : Typing.Setting → Except Diagnostic α}
    (htest : ∀ reg, Fails (test ⟨reg, ctx.scope, ctx.source⟩) (·.PointsInto ctx.source S.span)) :
    S.Alike σ (· = ·) (ctx.check test) (ctx.place.check test) := by
  refine fun reg => ?_
  change S.Outcome σ _ (test ⟨reg, ctx.scope, ctx.source⟩, reg) (test ⟨reg, ctx.scope, ctx.source⟩, ⟨reg, σ⟩)
  cases hx : test ⟨reg, ctx.scope, ctx.source⟩ with
  | ok a => exact .ok rfl
  | error d => exact .error ((Admits.of_pointsInto hctx.source (htest reg d hx)).excuses reg)

theorem check {test : Typing.Setting → Except Diagnostic α} {f : α → Parse γ} {g : α → Tracked δ}
    (htest : ∀ reg, Fails (test ⟨reg, ctx.scope, ctx.source⟩) (·.PointsInto ctx.source S.span))
    (hf : ∀ a, S.Alike σ B (f a) (g a)) : S.Alike σ B (ctx.check test >>= f) (ctx.place.check test >>= g) :=
  bind (checks hctx htest) fun a _ h => h ▸ hf a

theorem enter {span : Span} {define : Registry → Except Fault Unit × Registry} {f : Unit → Parse γ}
    {g : Unit → Tracked δ} (hs : S.span span) (hf : S.Alike σ B (f ()) (g ())) :
    S.Alike σ B (ctx.enter span define >>= f) (ctx.place.enter span define >>= g) := by
  refine bind (A := fun _ _ => True) (modifyGet fun outcome => ?_) fun _ _ _ => hf
  cases outcome with
  | ok _ => exact pure trivial
  | error _ => exact fail hctx hs

theorem requireModule {fault : Fault} {span : Span} {f : Unit → Parse γ} {g : Unit → Tracked δ}
    (hs : S.span span) (hf : S.Alike σ B (f ()) (g ())) :
    S.Alike σ B (ctx.requireModule fault span >>= f) (ctx.place.requireModule fault span >>= g) := by
  refine bind (A := fun _ _ => True) (get fun reg => ?_) fun _ _ _ => hf
  change S.Alike σ _ (if !reg.declares ctx.scope then _ else _) (if !reg.declares ctx.scope then _ else _)
  split
  · exact fail hctx hs
  · exact pure trivial

/-! What a production asks of the place it is at. -/

theorem inLoop {f : Bool → Parse γ} {g : Bool → Tracked δ} (hf : S.Alike σ B (f ctx.inLoop) (g ctx.inLoop)) :
    S.Alike σ B (Account.inLoop ctx >>= f) (Account.inLoop ctx.place >>= g) :=
  fun reg => by
    change S.Outcome σ B _ ((g σ.inLoop).run.run ⟨reg, σ⟩)
    rw [hctx.inLoop]
    exact hf reg

theorem routine {f : Option Enclosing → Parse γ} {g : Option Enclosing → Tracked δ}
    (hf : S.Alike σ B (f ctx.routine) (g ctx.routine)) :
    S.Alike σ B (Account.routine ctx >>= f) (Account.routine ctx.place >>= g) :=
  fun reg => by
    change S.Outcome σ B _ ((g σ.routine).run.run ⟨reg, σ⟩)
    rw [hctx.routine]
    exact hf reg

/-! What a production reads inside of something. -/

theorem nested {r r' : Region} (hr : S.Twin r r') {read : Context → Parse α} {read' : Context → Tracked β}
    (h : ctx.depth < maxDepth → S.Meets σ.descend { ctx with depth := ctx.depth + 1 } →
      S.Alike σ.descend A (read { ctx with depth := ctx.depth + 1 }) (read' ctx.place)) :
    S.Alike σ A (Grammar.nested ctx r read) (Grammar.nested ctx.place r' read') := by
  intro reg
  change S.Outcome σ A ((liftM (ctx.deeper r) >>= read : Parse α).run.run reg) _
  rw [Tracked.nested_run, hctx.depth, hr.fail_eq, Context.deeper]
  by_cases hd : ctx.depth < maxDepth
  · rw [if_neg (Nat.not_le_of_lt hd), if_pos hd]
    exact leaving σ.ascend_descend (h hd { hctx with depth := congrArg (· + 1) hctx.depth }) reg
  · rw [if_pos (Nat.le_of_not_lt hd), if_neg hd]
    exact .error ((hr.fail _).excuses reg)

theorem looping {read : Context → Parse α} {read' : Context → Tracked β}
    (h : S.Meets σ.enterLoop { ctx with inLoop := true } →
      S.Alike σ.enterLoop A (read { ctx with inLoop := true }) (read' ctx.place)) :
    S.Alike σ A (Grammar.looping ctx read) (Grammar.looping ctx.place read') :=
  leaving σ.leaveLoop_enterLoop (h { hctx with inLoop := rfl })

theorem inside {routine : Enclosing} {read : Context → Parse α} {read' : Context → Tracked β}
    (h : S.Meets (σ.enterFunction routine) { ctx with inLoop := false, routine := some routine } →
      S.Alike (σ.enterFunction routine) A (read { ctx with inLoop := false, routine := some routine })
        (read' ctx.place)) :
    S.Alike σ A (Grammar.inside ctx routine read) (Grammar.inside ctx.place routine read') :=
  leaving (σ.leaveFunction_enterFunction routine) (h { hctx with inLoop := rfl, routine := rfl })

theorem declaring {name : String} {p : Parse α} {q : Tracked β} (h : S.Alike (σ.beginStruct name) A p q) :
    S.Alike σ A (Grammar.declaring name p) (Grammar.declaring name q) :=
  leaving (σ.endStruct_beginStruct name hctx.declaring) h

end Context

theorem read {P : α → Region → Prop} {r r' : Region} {l : Left r} {l' : Left r'} {p : Parse (Step l.toRegion α)}
    {q : Tracked (Step l'.toRegion α)} (h : S.Alike σ (S.Steps P) p q) :
    S.Alike σ (S.Steps P) (l.read p) (l'.read q) :=
  map h fun _ _ hab => hab

theorem readKept {P : α → Region → Prop} {r r' : Region} {l : Kept r} {l' : Kept r'} {p : Parse (Step l.toRegion α)}
    {q : Tracked (Step l'.toRegion α)} (h : S.Alike σ (S.Steps P) p q) :
    S.Alike σ (S.Steps P) (l.read p) (l'.read q) :=
  map h fun _ _ hab => hab

/-- What is so of the values that two computations have in common is so of those of the first. -/
theorem returns {p : Parse α} {q : Tracked β} {Q : α → Prop} (h : S.Alike σ A p q) (hA : ∀ a b, A a b → Q a) :
    Returns p Q := by
  intro reg a reg' hp
  have outcome := h reg
  rw [hp] at outcome
  generalize q.run.run ⟨reg, σ⟩ = y at outcome
  cases outcome with
  | ok hab => exact hA _ _ hab

end Alike

/-- A computation with a registry, and one with a parser. -/
def parsePairing (S : Survey) (σ : Marks) : Pairing S Parse Tracked where
  Holds := S.Alike σ
  pure := .pure
  bind := .bind
  throw := .throw

/-! ### Parts in a row -/

section Items

variable {d : Nat} {r r' : Region}

/-- Items with commas between them follow one another. -/
theorem Alike.items {item : (r₀ : Region) → r₀.size ≤ r.size → List α → Parse (Step r₀ α)}
    {item' : (r₀ : Region) → r₀.size ≤ r'.size → List α → Tracked (Step r₀ α)} (parts : α → List Part)
    (hitem : ∀ r₀ r₀' h h' before, S.Twin r₀ r₀' →
      S.Alike σ (S.Steps fun a l => Lays S d r₀ l (parts a)) (item r₀ h before) (item' r₀' h' before))
    (hr : S.Twin r r') : S.Alike σ (S.Fills d r (·.flatMap parts)) (OnePass.items r item) (OnePass.items r' item') := by
  refine (S.parsePairing σ).items (I := fun before r₀ => Lays S d r r₀ (before.flatMap parts)) ?_ ?_ hr
    (.nil (.refl r))
  · exact fun _ _ l _ _ hall hcomma => hall.andThen (l.accept?_takes (by decide) hcomma).spares
  · intro r₀ r₀' h h' before hr₀ hbefore
    refine (hitem r₀ r₀' h h' before hr₀).imp fun s s' => ?_
    rintro ⟨heq, ha, hl⟩
    refine ⟨heq, ?_, hl⟩
    dsimp only
    rw [List.flatMap_append, List.flatMap_singleton]
    exact hbefore.append ha

theorem Alike.leftItems {n n' : Nat} {l : Left r} {l' : Left r'} {hn : r.size ≤ n} {hn' : r'.size ≤ n'}
    {item : (r₀ : Region) → r₀.size < n → List α → Parse (Step r₀ α)}
    {item' : (r₀ : Region) → r₀.size < n' → List α → Tracked (Step r₀ α)} (part : α → Part)
    (hitem : ∀ r₀ r₀' h h' before, S.Twin r₀ r₀' →
      S.Alike σ (S.Makes d r₀ part) (item r₀ h before) (item' r₀' h' before)) (hl : S.Twin l l') :
    S.Alike σ (S.Fills d l (·.map part)) (l.items hn item) (l'.items hn' item') := by
  refine (Alike.items (fun a => [part a]) (fun r₀ r₀' _ _ => hitem r₀ r₀' _ _) hl).imp fun all all' => ?_
  rintro ⟨heq, rest, hrest⟩
  exact ⟨heq, rest, by simpa only [List.map_eq_flatMap] using hrest⟩

end Items

end Survey

/-! ### Marks for a context -/

/-- Marks that say what a context says. -/
def Grammar.Context.marks (ctx : Context) : Marks where
  functions := (ctx.routine.map fun routine => ⟨routine, 0⟩).toList
  loops := ctx.inLoop.toNat
  depth := ctx.depth

theorem Survey.meets_marks {S : Survey} {ctx : Context} (h : S.locates → ctx.source = S.source) :
    S.Meets ctx.marks ctx where
  source := h
  depth := rfl
  inLoop := by
    rw [Marks.inLoop, Context.marks]
    cases ctx.inLoop <;> rfl
  routine := by
    rw [Marks.routine, Context.marks]
    cases ctx.routine <;> rfl
  declaring := rfl

end OnePass
