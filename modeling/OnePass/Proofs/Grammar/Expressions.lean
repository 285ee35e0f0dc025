import OnePass.Proofs.Grammar.Routine

/-!
Expressions: what each production gives, from operands up to assignments.
-/

namespace OnePass

open Grammar

namespace Grammar

variable {rd : Reading} {n hi : Nat} {below : Below Parse n} {ctx : Context} {r : Region} {h : r.size ≤ n}
  {reg : Registry}

theorem Context.Expr.mono {e : OnePass.Expr} {reg₁ : Registry} (he : ctx.Expr rd e reg)
    (h₁ : rd.Reaches reg reg₁) : ctx.Expr rd e reg₁ :=
  Reading.Built.mono he h₁

/-! ### Names -/

theorem aim_eq_ok {source : Source} {c c' : Call} (ha : reg.aim source c = .ok c') :
    ∃ found, reg.target? c = .ok found ∧ c' = { c with target := found.getD c.target } := by
  simp only [Registry.aim, bind_eq_ok, Typing.locate_eq_ok] at ha
  obtain ⟨found, hfound, ha⟩ := ha
  refine ⟨found, hfound, ?_⟩
  cases c
  cases found <;> exact (Except.ok.inj ha).symm

theorem arguments_gives {l : Left r} (hbelow : below.Sound) (hready : rd.Ready reg ctx.scope)
    (hl : l.Faces (rd.view reg) hi) :
    rd.Gives (l.items h fun r₀ h₀ before => do
      if before.length = maxParameters then throw (r₀.fail .tooManyArguments)
      below.expression ctx r₀ h₀) reg fun args reg₁ =>
        rd.Leads hi rd.start reg₁ ∧ rd.Ready reg₁ ctx.scope ∧ ∀ a ∈ args, ctx.Expr rd a reg₁ := by
  refine .leftItems (fun _ _ _ h he => he.mono h) ?_ hl hready
  intro r₀ h₀ before reg hr₀ hready
  refine .guard fun _ => ?_
  exact hbelow.expression ctx hready hr₀

/-- A call whose name begins behind the place `p`. -/
theorem call_gives {segments : List String} {start : Span} {p : Nat} (hbelow : below.Sound)
    (hready : rd.Ready reg ctx.scope) (hr : r.Faces (rd.view reg) hi) (hpath : IsPath rd.token segments)
    (hp : p ≤ r.front hi) (hpast : rd.Leads p rd.start reg) (hstart : start.Begins rd.tokens p) :
    rd.Gives (call below ctx segments start r h) reg (rd.Reads hi (ctx.Expr rd)) := by
  unfold call
  refine .lift (fun _ => hr.carve) fun ⟨inner, rest⟩ ⟨mid, carved⟩ => ?_
  -- The arguments, read as if there were no scope around them, leave the variables as they are.
  refine .bind ((arguments_gives hbelow hready carved.inner).and
    (arguments_gives hbelow hready.ready_apart (hready.faces_apart carved.inner))) ?_
  intro args reg₁ h₁ ⟨⟨hdone, hready₁, hargs⟩, hapart⟩
  refine .inferAll fun types htypes => ?_
  refine .get ?_
  refine .lift (fun _ => aim_eq_ok) ?_
  rintro _ ⟨found, hfound, rfl⟩
  have begins : rd.Begins reg (rest.spanFrom start) :=
    ⟨p, hpast, hstart.merge (carved.begins.mono hp)⟩
  refine .pure ⟨carved.resumes rfl hdone,
    .intro hready₁ .refl ⟨rfl, ⟨segments, hpath, rfl, rfl⟩, htypes, found, hfound, rfl⟩ ?_ trivial
      ⟨reg, begins, hready.knows, h₁, fun _ hid => hapart.variablesIn_eq_of_home rfl hid⟩⟩
  intro child hc
  obtain ⟨e, he, rfl⟩ := List.mem_map.mp hc
  exact hargs e he

/-- A value with a name. -/
def Context.Entry (rd : Reading) (ctx : Context) (e : OnePass.Entry) (reg : Registry) : Prop :=
  ctx.Expr rd e.value reg

theorem entry_gives (hbelow : below.Sound) (hready : rd.Ready reg ctx.scope) (hr : r.Faces (rd.view reg) hi) :
    rd.Gives (entry below ctx r h) reg (rd.Reads hi (ctx.Entry rd)) := by
  unfold entry
  refine .lift (fun _ => hr.takeOr) fun ⟨name, r₁⟩ ⟨_, _, hr₁⟩ => ?_
  refine .lift (fun _ => r₁.takeNamed_took hr₁) fun ⟨_, r₂⟩ ⟨_, _, hr₂⟩ => ?_
  refine .bind (.read (hbelow.expression ctx hready hr₂)) fun ⟨value, r₃⟩ reg₁ h₁ ⟨hr₃, hvalue⟩ => ?_
  exact .pure ⟨hr₃, hvalue⟩

theorem construction_gives {segments : List String} {start : Span} (hbelow : below.Sound)
    (hready : rd.Ready reg ctx.scope) (hr : r.Faces (rd.view reg) hi) (hpath : IsPath rd.token segments) :
    rd.Gives (construction below ctx segments start r h) reg (rd.Reads hi (ctx.Expr rd)) := by
  unfold construction
  refine .lift (fun _ => hr.carve) fun ⟨inner, rest⟩ ⟨mid, carved⟩ => ?_
  refine .bind (.leftItems (P := ctx.Entry rd) (fun _ _ _ h he => Context.Expr.mono he h)
    (fun r₀ h₀ _ reg hr₀ hready => entry_gives hbelow hready hr₀) carved.inner hready) ?_
  intro fields reg₁ h₁ ⟨hdone, hready₁, hfields⟩
  refine .get ?_
  split
  · exact .throw
  · rename_i internal hname
    refine .check fun _ hcheck => ?_
    refine .pure ⟨carved.resumes rfl hdone,
      .intro hready₁ .refl ⟨⟨segments, hpath, rfl, hname⟩, ctx.source, hcheck⟩ ?_ trivial trivial⟩
    intro child hc
    obtain ⟨e, he, rfl⟩ := List.mem_map.mp hc
    exact hfields e he

theorem members_gives {l : Left r} {segments : Nat} (hl : l.Faces (rd.view reg) hi) :
    rd.Gives (members segments l) reg fun out reg₁ => reg₁ = reg ∧ out.2.Faces (rd.view reg) hi := by
  unfold members
  refine (Reading.Gives.leftLoop (I := fun r _ reg₁ => reg₁ = reg ∧ r.Faces (rd.view reg) hi) ?_
    ⟨rfl, hl⟩).imp fun _ _ _ h => h
  rintro r₀ _ before reg₁ ⟨rfl, hr₀⟩
  unfold member
  split
  · rename_i r₁ hdot
    refine .lift (fun _ => r₁.takeNamed_took (hr₀.accept? hdot).2.2) fun ⟨t, r₂⟩ ⟨_, _, hr₂⟩ => ?_
    refine .guard fun _ => ?_
    exact .pure ⟨rfl, hr₂⟩
  · exact .pure ⟨rfl, hr₀⟩

theorem resolveIdentifier_eq_ok {source : Source} {scope : ScopeId} {segments : List String}
    {span : Span} {id : Identifier} (h : reg.resolveIdentifier source scope segments span = .ok id) :
    id.name = Name.written segments ∧ id.span = span ∧
      reg.bindingOf? scope segments = some id.binding := by
  unfold Registry.resolveIdentifier at h
  split at h
  · rename_i hb
    obtain rfl := Except.ok.inj h
    exact ⟨rfl, rfl, hb⟩
  · cases h

theorem variableExpr_gives {l : Left r} {segments : List String} {span start : Span}
    (hready : rd.Ready reg ctx.scope) (hl : l.Faces (rd.view reg) hi)
    (hpath : IsPath rd.token segments) (hbegins : rd.Begins reg span) :
    rd.Gives (variableExpr ctx segments span start l) reg (rd.Reads hi (ctx.Expr rd)) := by
  unfold variableExpr
  refine .get ?_
  refine .lift (fun _ => resolveIdentifier_eq_ok) fun id ⟨hname, hspan, hbinding⟩ => ?_
  have binds : rd.Binds reg ctx.scope id := ⟨segments, hpath, hname, hbinding⟩
  have timely : rd.Begins reg id.span := hspan ▸ hbegins
  refine .bind (members_gives hl) ?_
  rintro ⟨ms, rest⟩ _ _ ⟨rfl, hrest⟩
  dsimp only
  split
  · exact .pure ⟨hrest, .intro hready .refl binds (by simp [Node.children]) trivial timely⟩
  · refine .check fun t ht => ?_
    exact .pure ⟨hrest, .intro hready .refl ⟨binds, t, Typing.locate_eq_ok.mp ht⟩
      (by simp [Node.children]) trivial timely⟩

theorem nameExpr_gives (hbelow : below.Sound) (hready : rd.Ready reg ctx.scope)
    (hr : r.Faces (rd.view reg) hi) : rd.Gives (nameExpr below ctx r h) reg (rd.Reads hi (ctx.Expr rd)) := by
  unfold nameExpr
  refine .lift (path_yields hr) fun ⟨⟨segments, span⟩, r₁⟩ hread => ?_
  obtain ⟨_, hpath, hhead, hbegins, hr₁⟩ := hread
  have noBraces : rd.Gives
      (if r₁.headIs .leftParen = true then r₁.read (call below ctx segments r.head.span r₁ (r₁.within h))
        else variableExpr ctx segments span r.head.span r₁) reg (rd.Reads hi (ctx.Expr rd)) := by
    split
    · exact .read (call_gives hbelow hready hr₁ hpath (r₁.front_le hi) hr.past hhead)
    · exact variableExpr_gives hready hr₁ hpath ⟨_, hr.past, hbegins⟩
  dsimp only
  split
  · rename_i r₂ hcolon
    split
    · exact .read (construction_gives hbelow hready (r₁.accept?_took hr₁ hcolon).2.2 hpath)
    · exact noBraces
  · exact noBraces

/-! ### Functions without a name -/

theorem lambda_gives (hbelow : below.Sound) (hready : rd.Ready reg ctx.scope) (hr : r.Faces (rd.view reg) hi) :
    rd.Gives (lambda below ctx r h) reg (rd.Reads hi (ctx.Expr rd)) := by
  unfold lambda
  obtain ⟨hnamed, hr⟩ := Reading.reaches_of_perform .nameAnonymous hr (by nofun) trivial rfl
  refine .bind (Q := fun name reg₁ => name = reg.nameAnonymous.1 ∧ r.Faces (rd.view reg₁) hi)
    ⟨hnamed, fun _ h => ⟨(Except.ok.inj h).symm, hr⟩⟩ ?_
  intro name reg₁ h₁ ⟨hname, hr⟩
  have hready₁ := hready.mono h₁
  refine .openScope hready₁ (.inr rfl) hr fun scope reg₂ h₂ hscope hfresh hr => ?_
  refine .lift (fun _ => hr.carve) fun ⟨header, r₁⟩ ⟨mid, carved⟩ => ?_
  obtain ⟨paren, hparen, hopen⟩ := carved.opened (by decide)
  refine .bind (parameters_gives hscope (fun _ _ => hfresh.allows) carved.inner ⟨paren, hparen, .inl hopen⟩)
    fun ⟨params, isVariadic⟩ reg₃ h₃ ⟨hdone, hparams⟩ => ?_
  have hr₁ : r₁.Faces (rd.view reg₃) hi := carved.resumes rfl hdone
  refine .lift (fun _ => r₁.takeNamed_took hr₁) fun ⟨_, r₂⟩ ⟨_, _, hr₂⟩ => ?_
  have hready₃ := hready₁.mono (h₂.trans h₃)
  refine .bind (.read (type_gives hready₃ hr₂)) fun ⟨result, r₃⟩ reg₄ h₄ ⟨hr₃, hresult⟩ => ?_
  refine .lift (fun _ => r₃.takeNamed_took hr₃) fun ⟨_, r₄⟩ ⟨_, _, hr₄⟩ => ?_
  have types : ∀ t ∈ params.map (·.type), t.Written (Named rd.token) := by
    intro t ht
    obtain ⟨p, hp, rfl⟩ := List.mem_map.mp ht
    exact hparams p hp
  refine .enter (.defineFunction _) rfl (by nofun) hr₄ ⟨.inr ⟨reg, hname⟩, types, hresult⟩
    fun reg₅ h₅ hr₄ => ?_
  have hgrown := h₃.trans (h₄.trans h₅)
  have hready₅ := hready₃.mono (h₄.trans h₅)
  refine .bind (.read (body_gives hbelow hready₅ (hscope.mono hgrown) (hfresh.mono hgrown) hr₄)) ?_
  rintro ⟨b, r₅⟩ reg₆ h₆ ⟨hr₅, hbody, hb⟩
  exact .pure ⟨hr₅, .intro (hready₅.mono h₆) .refl ⟨hparams, hresult⟩ (List.forall_mem_singleton.mpr hb)
    (fun b' hb' => Option.some.inj hb' ▸ hbody) trivial⟩

/-! ### Operands -/

theorem parenthesized_gives (hbelow : below.Sound) (hready : rd.Ready reg ctx.scope)
    (hr : r.Faces (rd.view reg) hi) : rd.Gives (parenthesized below ctx r h) reg (rd.Reads hi (ctx.Expr rd)) := by
  unfold parenthesized
  refine .lift (fun _ => hr.carve) fun ⟨inner, rest⟩ ⟨mid, carved⟩ => ?_
  refine .guard fun _ => ?_
  refine .bind (hbelow.expression ctx hready carved.inner) fun ⟨e, left⟩ reg₁ h₁ ⟨hleft, he⟩ => ?_
  refine .lift (P := fun _ => True) (fun _ _ => trivial) fun _ _ => ?_
  exact .pure ⟨carved.resumes rfl hleft.done, he⟩

theorem arrayExpr_gives (hbelow : below.Sound) (hready : rd.Ready reg ctx.scope)
    (hr : r.Faces (rd.view reg) hi) : rd.Gives (arrayExpr below ctx r h) reg (rd.Reads hi (ctx.Expr rd)) := by
  unfold arrayExpr
  refine .lift (fun _ => hr.carve) fun ⟨inner, rest⟩ ⟨mid, carved⟩ => ?_
  refine .bind (.leftItems (P := ctx.Expr rd) (fun _ _ _ h he => he.mono h)
    (fun _ _ _ _ hr₀ hready => hbelow.expression ctx hready hr₀) carved.inner hready) ?_
  intro elements reg₁ h₁ ⟨hdone, hready₁, helements⟩
  refine .pure ⟨carved.resumes rfl hdone, .intro hready₁ .refl trivial ?_ trivial trivial⟩
  intro child hc
  obtain ⟨e, he, rfl⟩ := List.mem_map.mp hc
  exact helements e he

theorem variadicExpr_gives (hready : rd.Ready reg ctx.scope) (hr : r.Faces (rd.view reg) hi) :
    rd.Gives (variadicExpr ctx r) reg (rd.Reads hi (ctx.Expr rd)) := by
  unfold variadicExpr
  refine .lift (fun _ => hr.takeOr) fun ⟨t, rest⟩ ⟨_, _, hrest⟩ => ?_
  dsimp only
  rw [routine_eq, pure_bind]
  refine .guard fun hvariadic => ?_
  have variadic : ctx.routine.any (·.isVariadic) = true := by simpa using hvariadic
  exact .pure ⟨hrest, .intro hready .refl trivial (by simp [Node.children]) variadic trivial⟩

theorem lt_of_integer? {text : String} {n : Nat} (h : Numeral.integer? text = some n) : n < twoTo 64 := by
  unfold Numeral.integer? at h
  split at h <;> simpa using (Option.filter_eq_some_iff.mp h).2

/-- An integer is read only if it has no more than 64 bits. -/
theorem literal_fits {source : Source} {t : Token} {value : Literal} (h : literal source t = .ok value) :
    value.Fits := by
  have integer {long : Bool} (h : integerLiteral source t long = .ok value) : value.Fits := by
    unfold integerLiteral at h
    split at h
    · rename_i n hn
      obtain rfl := Except.ok.inj h
      exact lt_of_integer? hn
    · cases h
  have float {double : Bool} (h : floatLiteral source t double = .ok value) : value.Fits := by
    unfold floatLiteral at h
    split at h <;> cases h
    trivial
  unfold literal at h
  split at h
  · exact integer h
  · exact integer h
  · exact float h
  · exact float h
  all_goals
    obtain rfl := Except.ok.inj h
    trivial

theorem primary_gives (hbelow : below.Sound) (hready : rd.Ready reg ctx.scope)
    (hr : r.Faces (rd.view reg) hi) : rd.Gives (primary below ctx r h) reg (rd.Reads hi (ctx.Expr rd)) := by
  unfold primary
  split
  · exact .throw
  · rename_i t rest hnext
    split
    · refine .lift (fun _ => literal_fits) fun value hvalue => ?_
      exact .pure ⟨(hr.next? hnext).2,
        .intro hready .refl hvalue (by simp [Node.children]) trivial trivial⟩
    · split
      · exact nameExpr_gives hbelow hready hr
      · exact parenthesized_gives hbelow hready hr
      · exact arrayExpr_gives hbelow hready hr
      · exact variadicExpr_gives hready hr
      · exact .throw

theorem indexed_gives {start : Span} {array : Expr} (hbelow : below.Sound)
    (hready : rd.Ready reg ctx.scope) (hr : r.Faces (rd.view reg) hi) (harray : ctx.Expr rd array reg) :
    rd.Gives (indexed below ctx start array r h) reg (rd.Reads hi (ctx.Expr rd)) := by
  unfold indexed
  refine .lift (fun _ => hr.carve) fun ⟨inner, rest⟩ ⟨mid, carved⟩ => ?_
  refine .guard fun _ => ?_
  refine .bind (hbelow.expression ctx hready carved.inner)
    fun ⟨index, left⟩ reg₁ h₁ ⟨hleft, hindex⟩ => ?_
  refine .lift (P := fun _ => True) (fun _ _ => trivial) fun _ _ => ?_
  refine .check fun _ hinteger => ?_
  refine .check fun t ht => ?_
  refine .pure ⟨carved.resumes rfl hleft.done, .intro (hready.mono h₁) .refl
    ⟨⟨ctx.source, hinteger⟩, t, Typing.locate_eq_ok.mp ht⟩ ?_ trivial trivial⟩
  exact List.forall_mem_cons.mpr ⟨harray.mono h₁, List.forall_mem_singleton.mpr hindex⟩

theorem operatorBehind?_gives {start : Span} {e : Expr} (hbelow : below.Sound)
    (hready : rd.Ready reg ctx.scope) (hr : r.Faces (rd.view reg) hi) (he : ctx.Expr rd e reg) :
    rd.Gives (operatorBehind? below ctx start e r h) reg (rd.logic.Keeps
      (fun r e reg => r.Faces (rd.view reg) hi ∧ rd.Ready reg ctx.scope ∧ ctx.Expr rd e reg) r e) := by
  unfold operatorBehind?
  split
  · rename_i t rest hnext
    have hrest := (hr.next? hnext).2
    split
    · refine .bind (indexed_gives hbelow hready hr he) fun ⟨e', r₁⟩ reg₁ h₁ ⟨hr₁, he'⟩ => ?_
      exact .pure ⟨hr₁, hready.mono h₁, he'⟩
    · split
      · refine .check fun _ hcheck => ?_
        exact .pure ⟨hrest, hready, .intro hready .refl (fun _ => ⟨ctx.source, hcheck⟩)
          (List.forall_mem_singleton.mpr he) trivial trivial⟩
      · exact .pure ⟨hr, hready, he⟩
  · exact .pure ⟨hr, hready, he⟩

theorem postfixes_gives (hbelow : below.Sound) (hready : rd.Ready reg ctx.scope)
    (hr : r.Faces (rd.view reg) hi) : rd.Gives (postfixes below ctx r h) reg (rd.Reads hi (ctx.Expr rd)) := by
  unfold postfixes
  refine .bind (primary_gives hbelow hready hr) fun ⟨e, r₁⟩ reg₁ h₁ ⟨hr₁, he⟩ => ?_
  refine (Reading.Gives.leftLoop (fun r₀ _ e reg hI => operatorBehind?_gives hbelow hI.2.1 hI.1 hI.2.2)
    ⟨hr₁, hready.mono h₁, he⟩).imp ?_
  exact fun _ _ _ ⟨hr₂, _, he₂⟩ => ⟨hr₂, he₂⟩

/-! ### Operators -/

theorem deeper_eq_ok {ctx' : Context} (hd : ctx.deeper r = .ok ctx') :
    ctx' = { ctx with depth := ctx.depth + 1 } := by
  unfold Context.deeper at hd
  split at hd
  · cases hd
  · exact (Except.ok.inj hd).symm

theorem nested_gives {α : Type} {Q : α → Registry → Prop} {read : Context → Parse α}
    (h : rd.Gives (read { ctx with depth := ctx.depth + 1 }) reg Q) : rd.Gives (nested ctx r read) reg Q :=
  .lift (fun _ => deeper_eq_ok) fun _ hd => hd ▸ h

theorem prefixOp?_eq_some {k : Token.Kind} {op : UnaryOp} (hop : prefixOp? k = some op) :
    op ≠ .postIncrement ∧ op ≠ .postDecrement := by
  unfold prefixOp? at hop
  split at hop <;> cases hop <;> decide

theorem unary_gives (hbelow : below.Sound) (hready : rd.Ready reg ctx.scope) (hr : r.Faces (rd.view reg) hi) :
    rd.Gives (unary below ctx r h) reg (rd.Reads hi (ctx.Expr rd)) := by
  unfold unary
  split
  · rename_i t r₁ hnext
    split
    · rename_i op hop
      refine .bind (.read (nested_gives (hbelow.unary _ hready (hr.next? hnext).2))) ?_
      intro ⟨operand, r₂⟩ reg₁ h₁ ⟨hr₂, hoperand⟩
      have hready₁ := hready.mono h₁
      dsimp only
      split
      · refine .check fun _ hcheck => ?_
        exact .pure ⟨hr₂, .intro hready₁ .refl (fun _ => ⟨ctx.source, hcheck⟩)
          (List.forall_mem_singleton.mpr hoperand) trivial trivial⟩
      · rename_i hplain
        refine .pure ⟨hr₂, .intro hready₁ .refl ?_ (List.forall_mem_singleton.mpr hoperand)
          trivial trivial⟩
        intro hstep
        obtain ⟨hinc, hdec⟩ := prefixOp?_eq_some hop
        simp only [List.mem_cons, hinc, hdec, List.not_mem_nil, or_false] at hstep
        exact absurd hstep hplain
    · exact postfixes_gives hbelow hready hr
  · exact postfixes_gives hbelow hready hr

theorem power_gives (hbelow : below.Sound) (hready : rd.Ready reg ctx.scope) (hr : r.Faces (rd.view reg) hi) :
    rd.Gives (power below ctx r h) reg (rd.Reads hi (ctx.Expr rd)) := by
  unfold power
  refine .bind (unary_gives hbelow hready hr) fun ⟨base, r₁⟩ reg₁ h₁ ⟨hr₁, hbase⟩ => ?_
  dsimp only
  split
  · exact .pure ⟨hr₁, hbase⟩
  · rename_i r₂ hstars
    have hready₁ := hready.mono h₁
    refine .bind (.read (hbelow.power ctx hready₁ (r₁.accept?_took hr₁ hstars).2.2)) ?_
    intro ⟨exponent, r₃⟩ reg₂ h₂ ⟨hr₃, hexponent⟩
    exact .pure ⟨hr₃, .intro (hready₁.mono h₂) .refl trivial
      (List.forall_mem_cons.mpr ⟨hbase.mono h₂, List.forall_mem_singleton.mpr hexponent⟩)
      trivial trivial⟩

/-- What gives expressions of a context wherever it is used. -/
def Operand (rd : Reading) (ctx : Context)
    (operand : (r : Region) → r.size ≤ n → Parse (Step r Expr)) : Prop :=
  ∀ r h reg hi, rd.Ready reg ctx.scope → r.Faces (rd.view reg) hi →
    rd.Gives (operand r h) reg (rd.Reads hi (ctx.Expr rd))

theorem link?_gives {op? : Token.Kind → Option BinaryOp}
    {operand : (r : Region) → r.size ≤ n → Parse (Step r Expr)} {start : Span} {lhs : Expr}
    (hoperand : Operand rd ctx operand) (hready : rd.Ready reg ctx.scope) (hr : r.Faces (rd.view reg) hi)
    (hlhs : ctx.Expr rd lhs reg) :
    rd.Gives (link? op? operand start lhs r h) reg (rd.logic.Keeps
      (fun r e reg => r.Faces (rd.view reg) hi ∧ rd.Ready reg ctx.scope ∧ ctx.Expr rd e reg) r lhs) := by
  unfold link?
  split
  · rename_i t r₁ hnext
    split
    · refine .bind (.read (hoperand r₁ _ reg hi hready (hr.next? hnext).2)) ?_
      intro ⟨rhs, r₂⟩ reg₁ h₁ ⟨hr₂, hrhs⟩
      have hready₁ := hready.mono h₁
      exact .pure ⟨hr₂, hready₁, .intro hready₁ .refl trivial
        (List.forall_mem_cons.mpr ⟨hlhs.mono h₁, List.forall_mem_singleton.mpr hrhs⟩)
        trivial trivial⟩
    · exact .pure ⟨hr, hready, hlhs⟩
  · exact .pure ⟨hr, hready, hlhs⟩

theorem Operand.chain {op? : Token.Kind → Option BinaryOp}
    {operand : (r : Region) → r.size ≤ n → Parse (Step r Expr)} (hoperand : Operand rd ctx operand) :
    Operand rd ctx (chain op? operand) := by
  intro r h reg hi hready hr
  unfold Grammar.chain
  refine .bind (hoperand r h reg hi hready hr) fun ⟨first, r₁⟩ reg₁ h₁ ⟨hr₁, hfirst⟩ => ?_
  refine (Reading.Gives.leftLoop (fun r₀ _ e reg hI => link?_gives hoperand hI.2.1 hI.1 hI.2.2)
    ⟨hr₁, hready.mono h₁, hfirst⟩).imp ?_
  exact fun _ _ _ ⟨hr₂, _, he⟩ => ⟨hr₂, he⟩

theorem logical_gives (hbelow : below.Sound) : Operand rd ctx (logical below ctx) :=
  have powers : Operand rd ctx (power below ctx) := fun _ _ _ _ hready hr => power_gives hbelow hready hr
  powers.chain.chain.chain.chain

theorem assignment_gives (hbelow : below.Sound) (hready : rd.Ready reg ctx.scope)
    (hr : r.Faces (rd.view reg) hi) : rd.Gives (assignment below ctx r h) reg (rd.Reads hi (ctx.Expr rd)) := by
  unfold assignment
  refine .bind (logical_gives hbelow r h reg hi hready hr) fun ⟨target, r₁⟩ reg₁ h₁ ⟨hr₁, htarget⟩ => ?_
  dsimp only
  split
  · rename_i t r₂ hnext
    split
    · refine .guard fun hplace => ?_
      have hready₁ := hready.mono h₁
      refine .bind (.read (hbelow.expression ctx hready₁ (r₁.next?_faces hr₁ hnext))) ?_
      intro ⟨value, r₃⟩ reg₂ h₂ ⟨hr₃, hvalue⟩
      refine .check fun _ hcheck => ?_
      refine .pure ⟨hr₃, .intro (hready₁.mono h₂) .refl ⟨by simpa using hplace, ctx.source, hcheck⟩ ?_
        trivial trivial⟩
      exact List.forall_mem_cons.mpr ⟨htarget.mono h₂, List.forall_mem_singleton.mpr hvalue⟩
    · exact .pure ⟨hr₁, htarget⟩
  · exact .pure ⟨hr₁, htarget⟩

theorem expression_gives (hbelow : below.Sound) (hready : rd.Ready reg ctx.scope)
    (hr : r.Faces (rd.view reg) hi) : rd.Gives (expression below ctx r h) reg (rd.Reads hi (ctx.Expr rd)) := by
  unfold expression
  refine nested_gives ?_
  split
  · exact lambda_gives hbelow hready hr
  · exact assignment_gives hbelow hready hr

end Grammar
end OnePass
