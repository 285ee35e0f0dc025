import OnePass.Grammar.Basic
import OnePass.Proofs.Grammar.Reading
import OnePass.Proofs.Region.Loop
import OnePass.Proofs.Typing.Stability

/-!
Reasoning about productions. `Reading.Gives p reg Q` says what comes of `p` when it is begun with the
registry `reg`: with or without success the registry is one that reading may lead to, and what is read
satisfies `Q` together with that registry. There is a rule for each thing that a production does, so that
a fact about a production is proved along its text.
-/

namespace OnePass

open Grammar

theorem Grammar.run_bind {τ α β : Type} (p : ExceptT Diagnostic (StateM τ) α)
    (f : α → ExceptT Diagnostic (StateM τ) β) (s : τ) :
    (p >>= f).run.run s = match p.run.run s with
      | (.ok a, s₁) => (f a).run.run s₁
      | (.error d, s₁) => (.error d, s₁) := by
  rw [ExceptT.run_bind, StateT.run_bind]
  rcases p.run.run s with ⟨_ | _, _⟩ <;> rfl

theorem Grammar.run_enter (ctx : Context) (span : Span) (define : Registry → Except Fault Unit × Registry)
    (reg : Registry) :
    (ctx.enter span define : Parse Unit).run.run reg =
      ((define reg).1.mapError (.located · ctx.source span), (define reg).2) := by
  rw [Context.enter, run_bind, show (modifyGet define : Parse _).run.run reg =
    (.ok (define reg).1, (define reg).2) from rfl]
  rcases define reg with ⟨_ | _, _⟩ <;> rfl

namespace Reading

variable (rd : Reading) {α β : Type}

def Gives (p : Parse α) (reg : Registry) (Q : α → Registry → Prop) : Prop :=
  rd.Reaches reg (p.run.run reg).2 ∧ ∀ a, (p.run.run reg).1 = .ok a → Q a (p.run.run reg).2

variable {rd} {reg : Registry} {Q : α → Registry → Prop} {R : β → Registry → Prop}

namespace Gives

theorem pure {a : α} (h : Q a reg) : rd.Gives (pure a) reg Q :=
  ⟨.refl, fun _ ha => Except.ok.inj ha ▸ h⟩

theorem bind {p : Parse α} {f : α → Parse β} (hp : rd.Gives p reg Q)
    (hf : ∀ a reg₁, rd.Reaches reg reg₁ → Q a reg₁ → rd.Gives (f a) reg₁ R) :
    rd.Gives (p >>= f) reg R := by
  obtain ⟨hreach, hq⟩ := hp
  unfold Gives
  rw [run_bind]
  rcases he : p.run.run reg with ⟨d | a, reg₁⟩
  · rw [he] at hreach
    exact ⟨hreach, nofun⟩
  · rw [he] at hreach hq
    obtain ⟨hreach', hr⟩ := hf a reg₁ hreach (hq a rfl)
    exact ⟨hreach.trans hreach', hr⟩

theorem throw {d : Diagnostic} : rd.Gives (throw d) reg Q := ⟨.refl, nofun⟩

theorem map {p : Parse α} {f : α → β} (hp : rd.Gives p reg fun a => R (f a)) :
    rd.Gives (f <$> p) reg R :=
  bind hp fun _ _ _ h => pure h

theorem imp {p : Parse α} {Q' : α → Registry → Prop} (hp : rd.Gives p reg Q)
    (h : ∀ a reg₁, rd.Reaches reg reg₁ → Q a reg₁ → Q' a reg₁) : rd.Gives p reg Q' :=
  ⟨hp.1, fun a ha => h a _ hp.1 (hp.2 a ha)⟩

/-- What is read is part of another reading, too. -/
theorem and {rd' : Reading} {p : Parse α} {Q' : α → Registry → Prop} (hp : rd.Gives p reg Q)
    (hp' : rd'.Gives p reg Q') : rd.Gives p reg fun a reg₁ => Q a reg₁ ∧ rd'.Reaches reg reg₁ :=
  ⟨hp.1, fun a ha => ⟨hp.2 a ha, hp'.1⟩⟩

/-! ### What leaves the registry alone -/

theorem lift {x : Except Diagnostic α} {f : α → Parse β} {P : α → Prop} (hx : ∀ a, x = .ok a → P a)
    (hf : ∀ a, P a → rd.Gives (f a) reg R) : rd.Gives (liftM x >>= f) reg R := by
  cases x with
  | error d => exact ⟨.refl, nofun⟩
  | ok a => exact hf a (hx a rfl)

theorem liftLast {x : Except Diagnostic α} (hx : ∀ a, x = .ok a → Q a reg) :
    rd.Gives (liftM x) reg Q :=
  ⟨.refl, hx⟩

theorem get {f : Registry → Parse β} (hf : rd.Gives (f reg) reg R) : rd.Gives (get >>= f) reg R := hf

theorem check {ctx : Context} {test : Typing.Setting → Except Diagnostic α} {f : α → Parse β}
    (hf : ∀ a, test ⟨reg, ctx.scope, ctx.source⟩ = .ok a → rd.Gives (f a) reg R) :
    rd.Gives (ctx.check test >>= f) reg R :=
  lift (x := test ⟨reg, ctx.scope, ctx.source⟩) (fun _ h => h) hf

/-- A failure under a condition, and what is done otherwise. -/
theorem guard {c : Prop} [Decidable c] {d : Diagnostic} {f : PUnit → Parse β}
    (hf : ¬c → rd.Gives (f ()) reg R) :
    rd.Gives (if c then (MonadExcept.throw d : Parse PUnit) >>= f else f ()) reg R := by
  split
  · exact ⟨.refl, nofun⟩
  · exact hf ‹_›

theorem inferAll {ctx : Context} {args : List Expr} {f : List Ty → Parse β}
    (hf : ∀ types, List.Forall₂ (fun a t => Typing.infer reg ctx.scope a = .ok t) args types →
      rd.Gives (f types) reg R) :
    rd.Gives ((args.mapM fun arg => ctx.check (·.infer arg)) >>= f) reg R := by
  induction args generalizing f with
  | nil => exact hf [] .nil
  | cons a args ih =>
      rw [List.mapM_cons, bind_assoc]
      refine check fun t ht => ?_
      rw [bind_assoc]
      refine ih fun types htypes => hf (t :: types) (.cons ?_ htypes)
      exact Typing.locate_eq_ok.mp ht

end Gives

/-! ### What changes the registry -/

/-- What is known of the tokens once a reading has led to a registry. -/
def view (rd : Reading) (reg : Registry) : View where
  token := rd.token
  tokens := rd.tokens
  known := rd.known
  past p := rd.Leads p rd.start reg
  mono hle h := h.mono hle

/-- A registry that reading may have led to, and a scope of it to go on in. -/
structure Ready (rd : Reading) (reg : Registry) (id : ScopeId) : Prop where
  reached : rd.Reaches rd.start reg
  knows : reg.Knows id

namespace Ready

variable {reg₁ : Registry} {id : ScopeId}

theorem wellFormed (h : rd.Ready reg id) : reg.WellFormed := h.reached.wellFormed rd.wellFormed

theorem tidy (h : rd.Ready reg id) : reg.Tidy rd.token := h.reached.tidy rd.wellFormed rd.tidy

theorem mono (h : rd.Ready reg id) (hreach : rd.Reaches reg reg₁) : rd.Ready reg₁ id :=
  ⟨h.reached.trans hreach, hreach.grows.knows h.knows⟩

theorem qualify_eq (h : rd.Ready reg id) (hreach : rd.Reaches reg reg₁) (name : String) :
    reg₁.qualify id name = reg.qualify id name := by
  rw [Registry.qualify, Registry.qualify, h.wellFormed.modulePath_eq hreach.grows h.knows]

/-- What is read from here on, with no scope to enter definitions in but those that are opened. -/
def apart (h : rd.Ready reg id) : Reading :=
  { rd with start := reg, home := none, wellFormed := h.wellFormed, tidy := h.tidy }

theorem ready_apart (h : rd.Ready reg id) : h.apart.Ready reg id := ⟨.refl, h.knows⟩

theorem faces_apart (h : rd.Ready reg id) {r : Region} {hi : Nat} (hr : r.Faces (rd.view reg) hi) :
    r.Faces (h.apart.view reg) hi :=
  ⟨hr.bound, hr.window, .refl⟩

end Ready

theorem Allows.later {p q : Nat} {id : ScopeId} {reg₁ : Registry} (h : rd.Allows p reg id)
    (hready : rd.Ready reg id) (hreach : rd.Reaches reg reg₁) (hle : p ≤ q) : rd.Allows q reg₁ id :=
  (show rd.Allows p reg₁ id from Registry.Admits.later h hready.wellFormed hreach.grows).mono hle

/-- An inner scope that was opened since reading began. -/
def Fresh (rd : Reading) (reg : Registry) (id : ScopeId) : Prop :=
  reg.Inner id ∧ rd.start.scopes.length ≤ id

theorem Fresh.mono {id : ScopeId} {reg₁ : Registry} (h : rd.Fresh reg id) (hreach : rd.Reaches reg reg₁) :
    rd.Fresh reg₁ id :=
  ⟨h.1.mono hreach.grows, h.2⟩

theorem Fresh.allows {id : ScopeId} {reg₁ : Registry} {p : Nat} (h : rd.Fresh reg id) :
    rd.Allows p reg₁ id :=
  .opened h.2

section Operations

variable {r : Region} {hi : Nat} {reg₁ : Registry}

/-- An operation in front of what is still to be read. -/
theorem reaches_of_perform (op : Operation) (hr : r.Faces (rd.view reg) hi) (applies : op.Applies reg)
    (enters : rd.Enters (r.front hi) reg op) (after : reg.perform op = (.ok (), reg₁)) :
    rd.Reaches reg reg₁ ∧ r.Faces (rd.view reg₁) hi := by
  have hle : r.front hi ≤ rd.tokens.length := Nat.le_trans (Nat.sub_le _ _) hr.bound
  exact ⟨.step .refl applies (enters.mono hle) after,
    ⟨hr.bound, hr.window, .step hr.past applies enters after⟩⟩

end Operations

namespace Gives

variable {r : Region} {hi : Nat}

/-- Something is entered, and what becomes of the registry is known. -/
theorem entered {ctx : Context} {span : Span} {define : Registry → Except Fault Unit × Registry}
    {f : Unit → Parse β} (op : Operation) (hop : define reg = reg.perform op) (applies : op.Applies reg)
    (hr : r.Faces (rd.view reg) hi) (enters : rd.Enters (r.front hi) reg op)
    (hf : ∀ reg₁, reg.perform op = (.ok (), reg₁) → rd.Reaches reg reg₁ → r.Faces (rd.view reg₁) hi →
      rd.Gives (f ()) reg₁ R) :
    rd.Gives (ctx.enter span define >>= f) reg R := by
  refine bind (Q := fun _ reg₁ => reg.perform op = (.ok (), reg₁) ∧ r.Faces (rd.view reg₁) hi) ?_
    fun _ reg₁ h₁ ⟨after, hr₁⟩ => hf reg₁ after h₁ hr₁
  unfold Gives
  rw [run_enter, hop]
  rcases after : reg.perform op with ⟨fault | _, reg₁⟩
  · rw [Registry.perform_failed after]
    exact ⟨.refl, nofun⟩
  · obtain ⟨hreach, hr₁⟩ := reaches_of_perform op hr applies enters after
    exact ⟨hreach, fun _ _ => ⟨rfl, hr₁⟩⟩

theorem enter {ctx : Context} {span : Span} {define : Registry → Except Fault Unit × Registry}
    {f : Unit → Parse β} (op : Operation) (hop : define reg = reg.perform op) (applies : op.Applies reg)
    (hr : r.Faces (rd.view reg) hi) (enters : rd.Enters (r.front hi) reg op)
    (hf : ∀ reg₁, rd.Reaches reg reg₁ → r.Faces (rd.view reg₁) hi → rd.Gives (f ()) reg₁ R) :
    rd.Gives (ctx.enter span define >>= f) reg R :=
  entered op hop applies hr enters fun reg₁ _ => hf reg₁

/-- A new scope, in which anything may be entered. -/
theorem openScope {ctx : Context} {kind : ScopeKind} {f : ScopeId → Parse β}
    (hready : rd.Ready reg ctx.scope) (hk : kind = .block ∨ kind = .function)
    (hr : r.Faces (rd.view reg) hi)
    (hf : ∀ scope reg₁, rd.Reaches reg reg₁ → rd.Ready reg₁ scope →
      rd.Fresh reg₁ scope → r.Faces (rd.view reg₁) hi → rd.Gives (f scope) reg₁ R) :
    rd.Gives (ctx.openScope kind >>= f) reg R := by
  obtain ⟨hreach, hr₁⟩ := reaches_of_perform (.openScope ctx.scope kind) hr
    (fun _ h => Option.some.inj h ▸ hready.knows) hk rfl
  refine bind (Q := fun scope reg₁ => rd.Ready reg₁ scope ∧ rd.Fresh reg₁ scope ∧
    r.Faces (rd.view reg₁) hi) ⟨hreach, ?_⟩
    fun scope reg₁ h₁ ⟨hscope, hnew, hr₁⟩ => hf scope reg₁ h₁ hscope hnew hr₁
  rintro _ ⟨⟩
  have inner := reg.inner_openScope ctx.scope (show kind.declares = false by rcases hk with rfl | rfl <;> rfl)
    none
  exact ⟨⟨hready.reached.trans hreach, inner.1⟩, ⟨inner, hready.reached.grows.length_le⟩, hr₁⟩

end Gives

/-- The rules as a logic, for the loops. -/
def logic (rd : Reading) : Logic Parse where
  State := Registry
  Holds := rd.Gives
  pure := Gives.pure
  bind hp hf := Gives.bind hp fun a reg₁ _ h => hf a reg₁ h
  throw := Gives.throw

namespace Gives

variable {σ : Type} {r : Region} {id : ScopeId}

theorem loop {I : Region → σ → Registry → Prop}
    {step : (r' : Region) → r'.size ≤ r.size → σ → Parse (Option (Step r' σ))}
    (hstep : ∀ r h v reg, I r v reg → rd.Gives (step r h v) reg (rd.logic.Keeps I r v)) {v : σ}
    (h : I r v reg) : rd.Gives (loop r v step) reg fun out reg₁ => I out.2 out.1 reg₁ :=
  rd.logic.loop hstep h

theorem leftLoop {n : Nat} {l : Left r} {hr : r.size ≤ n} {I : Region → σ → Registry → Prop}
    {step : (r' : Region) → r'.size < n → σ → Parse (Option (Step r' σ))}
    (hstep : ∀ r h v reg, I r v reg → rd.Gives (step r h v) reg (rd.logic.Keeps I r v)) {v : σ}
    (h : I l v reg) : rd.Gives (l.loop hr v step) reg fun out reg₁ => I out.2 out.1 reg₁ :=
  rd.logic.leftLoop hstep h

end Gives

/-- What is read satisfies `P`, and what is left ends in front of `hi`. -/
def Reads (rd : Reading) (hi : Nat) {r : Region} (P : α → Registry → Prop) (s : Step r α)
    (reg : Registry) : Prop :=
  s.2.Faces (rd.view reg) hi ∧ P s.1 reg

namespace Gives

variable {r : Region} {hi : Nat} {P : α → Registry → Prop}

theorem read {l : Left r} {p : Parse (Step l.toRegion α)} (hp : rd.Gives p reg (rd.Reads hi P)) :
    rd.Gives (l.read p) reg (rd.Reads hi P) :=
  map hp

theorem readKept {l : Kept r} {p : Parse (Step l.toRegion α)} (hp : rd.Gives p reg (rd.Reads hi P)) :
    rd.Gives (l.read p) reg (rd.Reads hi P) :=
  map hp

/-- Items that each satisfy `P`, where `P` is not lost when the registry grows. Each begins behind a comma,
or behind what stands in front of them all. -/
theorem itemsFrom {id : ScopeId} {item : (r' : Region) → r'.size ≤ r.size → List α → Parse (Step r' α)}
    {B : Option Token → Prop} (hcomma : ∀ t : Token, t.kind = .comma → B (some t))
    (hmono : ∀ a reg reg₁, rd.Reaches reg reg₁ → P a reg → P a reg₁)
    (hitem : ∀ r h before reg, r.Faces (rd.view reg) hi → B (tokenBefore? rd.tokens (r.front hi)) →
      rd.Ready reg id → rd.Gives (item r h before) reg (rd.Reads hi P))
    (hr : r.Faces (rd.view reg) hi) (hfirst : B (tokenBefore? rd.tokens (r.front hi)))
    (hready : rd.Ready reg id) :
    rd.Gives (items r item) reg fun all reg₁ =>
      rd.Leads hi rd.start reg₁ ∧ rd.Ready reg₁ id ∧ ∀ a ∈ all, P a reg₁ := by
  have commas : rd.logic.PassesCommas fun r reg => r.Faces (rd.view reg) hi :=
    fun _ l _ _ hl hcomma => (l.accept?_took hl hcomma).2.2
  have behind (r : Region) (l : Left r) (out : Step r Token) (reg : Registry)
      (hl : l.Faces (rd.view reg) hi) (ha : l.accept? .comma = some out) :
      B (tokenBefore? rd.tokens (out.2.front hi)) := by
    have hbefore : tokenBefore? rd.tokens (out.2.front hi) = some out.1 := l.before_accept? hl (by decide) ha
    exact hbefore ▸ hcomma _ (l.accept?_took hl ha).1
  have step (r₀ : Region) (h₀ : r₀.size ≤ r.size) (before : List α) (reg : Registry)
      (hr₀ : r₀.Faces (rd.view reg) hi) (hfront : B (tokenBefore? rd.tokens (r₀.front hi)))
      (hbefore : rd.Ready reg id ∧ ∀ a ∈ before, P a reg) :
      rd.Gives (item r₀ h₀ before) reg fun out reg₁ =>
        out.2.Faces (rd.view reg₁) hi ∧ rd.Ready reg₁ id ∧ ∀ a ∈ before ++ [out.1], P a reg₁ := by
    refine (hitem r₀ h₀ before reg hr₀ hfront hbefore.1).imp fun ⟨a, r₁⟩ reg₁ h₁ ⟨hr₁, ha⟩ => ?_
    refine ⟨hr₁, hbefore.1.mono h₁, fun b hb => ?_⟩
    rcases List.mem_append.mp hb with hb | hb
    · exact hmono b reg reg₁ h₁ (hbefore.2 b hb)
    · exact List.mem_singleton.mp hb ▸ ha
  have all : rd.Gives (OnePass.items r item) reg fun all reg₁ =>
      (∃ rest : Region, rest.Faces (rd.view reg₁) hi ∧ rest.hasNext = false) ∧
        rd.Ready reg₁ id ∧ ∀ a ∈ all, P a reg₁ :=
    rd.logic.itemsFrom (B := fun r _ => B (tokenBefore? rd.tokens (r.front hi))) commas behind step hr hfirst
      ⟨hready, by simp⟩
  exact all.imp fun _ _ _ ⟨⟨_, hrest, _⟩, hready₁, hall⟩ => ⟨hrest.done, hready₁, hall⟩

theorem items {id : ScopeId} {item : (r' : Region) → r'.size ≤ r.size → List α → Parse (Step r' α)}
    (hmono : ∀ a reg reg₁, rd.Reaches reg reg₁ → P a reg → P a reg₁)
    (hitem : ∀ r h before reg, r.Faces (rd.view reg) hi → rd.Ready reg id →
      rd.Gives (item r h before) reg (rd.Reads hi P))
    (hr : r.Faces (rd.view reg) hi) (hready : rd.Ready reg id) :
    rd.Gives (items r item) reg fun all reg₁ =>
      rd.Leads hi rd.start reg₁ ∧ rd.Ready reg₁ id ∧ ∀ a ∈ all, P a reg₁ :=
  itemsFrom (B := fun _ => True) (fun _ _ => trivial) hmono
    (fun r h before reg hr _ => hitem r h before reg hr) hr trivial hready

theorem leftItems {n : Nat} {l : Left r} {hn : r.size ≤ n} {id : ScopeId}
    {item : (r' : Region) → r'.size < n → List α → Parse (Step r' α)}
    (hmono : ∀ a reg reg₁, rd.Reaches reg reg₁ → P a reg → P a reg₁)
    (hitem : ∀ r h before reg, r.Faces (rd.view reg) hi → rd.Ready reg id →
      rd.Gives (item r h before) reg (rd.Reads hi P))
    (hl : l.Faces (rd.view reg) hi) (hready : rd.Ready reg id) :
    rd.Gives (l.items hn item) reg fun all reg₁ =>
      rd.Leads hi rd.start reg₁ ∧ rd.Ready reg₁ id ∧ ∀ a ∈ all, P a reg₁ :=
  items hmono (fun r _ => hitem r _) hl hready

end Gives
end Reading
end OnePass
