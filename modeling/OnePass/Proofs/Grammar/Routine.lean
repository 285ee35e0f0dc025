import OnePass.Proofs.Grammar.Types

/-!
Blocks and the parts of functions. Each fact says of one production what it gives, provided that the
productions it calls on shorter regions give what they should (`Below.Sound`).
-/

namespace OnePass

open Grammar

namespace Grammar

variable {rd : Reading} {n hi : Nat} {below : Below Parse n} {ctx : Context} {r : Region} {h : r.size ≤ n}
  {reg : Registry}

/-- Expressions that are read in a context. -/
def Context.Expr (rd : Reading) (ctx : Context) (e : OnePass.Expr) (reg : Registry) : Prop :=
  rd.Built reg ctx.site (.expr e)

/-- Statements that are read in a context; none of them is a package. -/
def Context.Stmt (rd : Reading) (ctx : Context) (s : OnePass.Stmt) (reg : Registry) : Prop :=
  s.isPackage = false ∧ rd.Built reg ctx.site (.stmt s)

theorem Context.Stmt.mono {s : OnePass.Stmt} {reg₁ : Registry} (hs : ctx.Stmt rd s reg)
    (h₁ : rd.Reaches reg reg₁) : ctx.Stmt rd s reg₁ :=
  ⟨hs.1, hs.2.mono h₁⟩

/-- The productions for shorter regions give trees that are built, whatever the reading they are used for. -/
structure Below.Sound (below : Below Parse n) : Prop where
  statement : ∀ {rd : Reading} (ctx : Context) {r h reg hi}, rd.Ready reg ctx.scope →
    rd.Allows (r.front hi) reg ctx.scope → r.Faces (rd.view reg) hi →
    rd.Gives (below.statement ctx r h) reg (rd.Reads hi (ctx.Stmt rd))
  expression : ∀ {rd : Reading} (ctx : Context) {r h reg hi}, rd.Ready reg ctx.scope →
    r.Faces (rd.view reg) hi → rd.Gives (below.expression ctx r h) reg (rd.Reads hi (ctx.Expr rd))
  unary : ∀ {rd : Reading} (ctx : Context) {r h reg hi}, rd.Ready reg ctx.scope →
    r.Faces (rd.view reg) hi → rd.Gives (below.unary ctx r h) reg (rd.Reads hi (ctx.Expr rd))
  power : ∀ {rd : Reading} (ctx : Context) {r h reg hi}, rd.Ready reg ctx.scope →
    r.Faces (rd.view reg) hi → rd.Gives (below.power ctx r h) reg (rd.Reads hi (ctx.Expr rd))

/-- A type has only names in it that were found in the registry, which is still the same. -/
theorem type_gives_found {what : String} {declaring : Option String} {N : Registry → String → Prop}
    (hfinds : TypeSetting.Finds ⟨reg, ctx.source, ctx.scope, declaring⟩ rd.token (N reg))
    (hr : r.Faces (rd.view reg) hi) :
    rd.Gives (ctx.type r what declaring) reg (rd.Reads hi fun t reg => t.Written (N reg)) :=
  .get (.liftLast (type_finds hfinds hr))

theorem type_gives {what : String} {declaring : Option String} (hready : rd.Ready reg ctx.scope)
    (hr : r.Faces (rd.view reg) hi) :
    rd.Gives (ctx.type r what declaring) reg (rd.Reads hi fun t _ => t.Written (Named rd.token)) :=
  type_gives_found (N := fun _ => Named rd.token) (TypeSetting.finds_named hready.tidy) hr

/-- A path behind what has been read, and the tokens that spell it. -/
theorem path_gives {l : Left r} {what : String} (hl : l.Faces (rd.view reg) hi) :
    rd.Gives (l.read (liftM (path l.toRegion what))) reg fun s reg₁ =>
      reg₁ = reg ∧ IsPath rd.token s.1.1 ∧ (∃ ts, Spells ts s.1.1 ∧ l.pending = ts ++ s.2.pending) ∧
        s.2.Faces (rd.view reg) hi := by
  refine .map (.liftLast fun s hs => ?_)
  obtain ⟨hspelt, hpath, _, _, hrest⟩ := path_yields hl s hs
  exact ⟨rfl, hpath, hspelt, hrest⟩

/-! ### Blocks -/

theorem statements_gives {h : r.size < n} (hbelow : below.Sound) (hready : rd.Ready reg ctx.scope)
    (hallows : rd.Allows (r.front hi) reg ctx.scope) (hr : r.Faces (rd.view reg) hi) :
    rd.Gives (statements below ctx r h) reg fun out reg₁ =>
      out.2.Faces (rd.view reg₁) hi ∧ rd.Ready reg₁ ctx.scope ∧ ∀ s ∈ out.1, ctx.Stmt rd s reg₁ := by
  unfold statements
  refine (Reading.Gives.loop (I := fun r stmts reg => r.Faces (rd.view reg) hi ∧
    (rd.Ready reg ctx.scope ∧ rd.Allows (r.front hi) reg ctx.scope) ∧ ∀ s ∈ stmts, ctx.Stmt rd s reg) ?_
    ⟨hr, ⟨hready, hallows⟩, by simp⟩).imp fun _ _ _ ⟨hrest, hscope, hall⟩ => ⟨hrest, hscope.1, hall⟩
  rintro r₀ h₀ before reg ⟨hr₀, ⟨hready, hallows⟩, hbefore⟩
  split
  · exact .pure ⟨hr₀, ⟨hready, hallows⟩, hbefore⟩
  · split
    · rename_i r₁ hsemi
      exact .pure ⟨(hr₀.accept? hsemi).2.2, ⟨hready, hallows.mono (r₁.front_le hi)⟩, hbefore⟩
    · refine .bind (hbelow.statement ctx hready hallows hr₀) fun ⟨s, r₁⟩ reg₁ h₁ ⟨hr₁, hs⟩ => ?_
      refine .pure ⟨hr₁, ⟨hready.mono h₁, hallows.later hready h₁ (r₁.front_le hi)⟩, ?_⟩
      intro s' hs'
      rcases List.mem_append.mp hs' with hs' | hs'
      · exact (hbefore s' hs').mono h₁
      · exact List.mem_singleton.mp hs' ▸ hs

theorem noPackage_sited {site : Site} {b : Block} (hb : ∀ s ∈ b.stmts, s.isPackage = false) :
    (Node.block b).Sited reg site := by
  intro i s hs hpackage
  rw [hb s (List.mem_of_getElem? hs)] at hpackage
  cases hpackage

/-- A block that stands in the scope `outer`. -/
theorem block_gives (ctx : Context) {outer : ScopeId} (hbelow : below.Sound)
    (houter : rd.Ready reg outer) (hready : rd.Ready reg ctx.scope)
    (hallows : rd.Allows (r.front hi) reg ctx.scope) (hr : r.Faces (rd.view reg) hi) :
    rd.Gives (block below ctx r h) reg (rd.Reads hi fun b reg =>
      b.scope = ctx.scope ∧ rd.Built reg { ctx.site with scope := outer } (.block b)) := by
  unfold block
  refine .lift (fun _ => hr.carve) fun ⟨inner, rest⟩ ⟨mid, carved⟩ => ?_
  refine .bind (statements_gives hbelow hready (hallows.mono carved.inner_front) carved.inner) ?_
  rintro ⟨stmts, _⟩ reg₁ h₁ ⟨hinner, hready₁, hstmts⟩
  refine .pure ⟨carved.resumes rfl hinner.done, rfl, .intro (houter.mono h₁) .refl hready₁.knows ?_
    (noPackage_sited fun s hs => (hstmts s hs).1) trivial⟩
  intro child hc
  obtain ⟨s, hs, rfl⟩ := List.mem_map.mp hc
  exact (hstmts s hs).2

theorem freshBlock_gives (ctx : Context) (hbelow : below.Sound) (hready : rd.Ready reg ctx.scope)
    (hr : r.Faces (rd.view reg) hi) :
    rd.Gives (freshBlock below ctx r h) reg
      (rd.Reads hi fun b reg => reg.Inner b.scope ∧ rd.Built reg ctx.site (.block b)) := by
  unfold freshBlock
  refine .openScope hready (.inl rfl) hr fun scope reg₁ h₁ hready₁ hfresh hr₁ => ?_
  refine (block_gives { ctx with scope } hbelow (hready.mono h₁) hready₁ hfresh.allows hr₁).imp ?_
  rintro ⟨b, rest⟩ reg₂ h₂ ⟨hrest, hscope, hb⟩
  exact ⟨hrest, hscope ▸ (hfresh.mono h₂).1, hb⟩

/-! ### Parameters and bodies -/

/-- Parameters begin behind a parenthesis or a comma. -/
def BehindComma (before : Option Token) : Prop :=
  ∃ t, before = some t ∧ (t.kind = .leftParen ∨ t.kind = .comma)

theorem BehindComma.introduces {before : Option Token} {symbol : Symbol} {type : Ty}
    (h : BehindComma before) (ht : type.isMutable = false) :
    ∃ t, before = some t ∧ t.Introduces ⟨symbol, type⟩ := by
  obtain ⟨t, rfl, hk⟩ := h
  refine ⟨t, rfl, ?_⟩
  rcases hk with hk | hk <;> simp [Token.Introduces, hk, ht]

theorem parameter_gives {before : List (Option Param)} (hready : rd.Ready reg ctx.scope)
    (hfresh : ∀ p reg, rd.Allows p reg ctx.scope) (hr : r.Faces (rd.view reg) hi)
    (hfront : BehindComma (tokenBefore? rd.tokens (r.front hi))) :
    rd.Gives (parameter ctx before r) reg
      (rd.Reads hi fun p _ => ∀ q ∈ p, q.type.Written (Named rd.token)) := by
  unfold parameter
  refine .guard fun _ => ?_
  split
  · rename_i rest hdots
    exact .pure ⟨(hr.accept? hdots).2.2, by simp⟩
  · refine .lift (fun _ => hr.takeOr) fun ⟨name, r₁⟩ ⟨hk, hname, hr₁⟩ => ?_
    refine .lift (fun _ => r₁.takeNamed_took hr₁) fun ⟨_, r₂⟩ ⟨_, _, hr₂⟩ => ?_
    refine .bind (.read (type_gives hready hr₂)) fun ⟨type, r₃⟩ reg₁ h₁ ⟨hr₃, htype⟩ => ?_
    have hready₁ := hready.mono h₁
    refine .guard fun _ => ?_
    refine .guard fun _ => ?_
    refine .enter (.defineVariable ctx.scope _) rfl (fun _ h => Option.some.inj h ▸ hready₁.knows) hr₃
      ⟨hfresh _ _, ⟨_, r₃.front_lt hr, ?_⟩, .inl rfl, fun _ _ hwritten _ => hwritten type htype⟩
      fun reg₂ h₂ hr₃ => ?_
    · obtain ⟨t, hbefore, hintroduces⟩ := hfront.introduces htype.isMutable_eq
      exact ⟨name, t, hname, hk, rfl, rfl, hbefore, hintroduces⟩
    exact .pure ⟨hr₃, fun q hq => Option.some.inj hq ▸ htype⟩

theorem parameters_gives (hready : rd.Ready reg ctx.scope) (hfresh : ∀ p reg, rd.Allows p reg ctx.scope)
    (hr : r.Faces (rd.view reg) hi) (hfront : BehindComma (tokenBefore? rd.tokens (r.front hi))) :
    rd.Gives (parameters ctx r) reg fun out reg₁ =>
      rd.Leads hi rd.start reg₁ ∧ ∀ p ∈ out.1, p.type.Written (Named rd.token) := by
  unfold parameters
  refine .bind (.itemsFrom (B := BehindComma) (fun t ht => ⟨t, rfl, .inr ht⟩) (fun _ _ _ _ h => h)
    (fun r _ before reg hr hfront hready => parameter_gives hready hfresh hr hfront) hr hfront hready) ?_
  intro all reg₁ _ ⟨hdone, _, hall⟩
  refine .pure ⟨hdone, fun p hp => ?_⟩
  obtain ⟨_, hm, rfl⟩ := List.mem_filterMap.mp hp
  exact hall _ hm p rfl

theorem body_gives {routine : Enclosing} {outer : ScopeId} (hbelow : below.Sound)
    (houter : rd.Ready reg outer) (hready : rd.Ready reg ctx.scope) (hfresh : rd.Fresh reg ctx.scope)
    (hr : r.Faces (rd.view reg) hi) :
    rd.Gives (body below ctx routine r h) reg (rd.Reads hi fun b reg =>
      (reg.Inner b.scope ∧ (routine.result.isVoid = false → b.returns = true)) ∧
        rd.Built reg ⟨outer, false, some routine⟩ (.block b)) := by
  unfold body
  refine .bind (block_gives { ctx with inLoop := false, routine := some routine } hbelow houter hready
    hfresh.allows hr) fun ⟨b, rest⟩ reg₁ h₁ ⟨hrest, hscope, hb⟩ => ?_
  refine .guard fun hreturns => ?_
  refine .pure ⟨hrest, ⟨hscope ▸ (hfresh.mono h₁).1, ?_⟩, hb⟩
  simpa using hreturns

end Grammar
end OnePass
