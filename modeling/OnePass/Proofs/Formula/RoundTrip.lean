import OnePass.Proofs.Formula.Basic
import OnePass.Proofs.Grammar.Sequence

/-!
What is printed is read. The tokens of a formula are read as that formula, whatever follows them, as long as it
does not go on with an expression and parentheses and operators are not nested too deep. A formula is read by
the production of its own tier; a production for a looser tier reads it as its one operand. In parentheses it is
read by any. Where operators of a tier group to the left, the production has read the left operand of the last one
when it comes to it: this is what is proved along the chain.
-/

namespace OnePass

open Token (Kind)

namespace Grammar

variable {n : Nat} {below : Below Parse n} {ctx : Context}

/-! ### Productions by tier -/

def unaryAt (ctx : Context) (r : Region) : Parse (Step r Expr) :=
  (Grammar.below (r.size + 1)).unary ctx r r.size_lt

def powerAt (ctx : Context) (r : Region) : Parse (Step r Expr) :=
  (Grammar.below (r.size + 1)).power ctx r r.size_lt

/-- What is called for shorter regions are the productions themselves. -/
structure Below.Tied (below : Below Parse n) : Prop where
  expression (ctx : Context) (r : Region) (h : r.size < n) : below.expression ctx r h = expressionAt ctx r
  unary (ctx : Context) (r : Region) (h : r.size < n) : below.unary ctx r h = unaryAt ctx r
  power (ctx : Context) (r : Region) (h : r.size < n) : below.power ctx r h = powerAt ctx r

theorem below_tied (n : Nat) : (Grammar.below n).Tied where
  expression := expression_below_eq
  unary ctx r h := congrArg (fun b : Below Parse (r.size + 1) => b.unary ctx r r.size_lt)
    (restrict_below_eq (Nat.succ_le_of_lt h) (Nat.le_refl _))
  power ctx r h := congrArg (fun b : Below Parse (r.size + 1) => b.power ctx r r.size_lt)
    (restrict_below_eq (Nat.succ_le_of_lt h) (Nat.le_refl _))

theorem expressionAt_eq (ctx : Context) (r : Region) :
    expressionAt ctx r = expression (Grammar.below r.size) ctx r r.size_le :=
  rfl

theorem deeper_eq {r : Region} (h : ctx.depth < maxDepth) :
    ctx.deeper r = .ok { ctx with depth := ctx.depth + 1 } :=
  if_neg (Nat.not_le_of_lt h)

theorem lift_ok {α : Type} (a : α) : (liftM (Except.ok a : Except Diagnostic α) : Parse α) = pure a := rfl

theorem nested_eq {α : Type} {r : Region} (h : ctx.depth < maxDepth) (read : Context → Parse α) :
    nested ctx r read = read { ctx with depth := ctx.depth + 1 } := by
  change liftM (ctx.deeper r) >>= read = _
  rw [deeper_eq h, lift_ok, pure_bind]

/-- The operators of a tier that groups to the left. -/
def tierOp? : Nat → Kind → Option BinaryOp
  | 0 => logicalOp?
  | 1 => comparisonOp?
  | 2 => sumOp?
  | 3 => productOp?
  | _ => fun _ => none

/-- The production for a tier. -/
def atTier (below : Below Parse n) (ctx : Context) : Nat → (r : Region) → r.size ≤ n → Parse (Step r Expr)
  | 0 => logical below ctx
  | 1 => chain comparisonOp? (chain sumOp? (chain productOp? (power below ctx)))
  | 2 => chain sumOp? (chain productOp? (power below ctx))
  | 3 => chain productOp? (power below ctx)
  | 4 => power below ctx
  | _ => unary below ctx

theorem atTier_eq {tier : Nat} (h : tier < 4) :
    atTier below ctx tier = chain (tierOp? tier) (atTier below ctx (tier + 1)) := by
  match tier, h with
  | 0, _ | 1, _ | 2, _ | 3, _ => rfl

/-- The tier of what a token means behind an operand. -/
def tierBehind? : Kind → Option Nat
  | .leftBracket | .plusPlus | .minusMinus => some 5
  | .starStar => some 4
  | .star | .slash | .percent => some 3
  | .plus | .minus => some 2
  | .equal | .notEqual | .less | .lessEqual | .greater | .greaterEqual => some 1
  | .andAnd | .orOr => some 0
  | _ => none

theorem tierBehind?_of_tierOp? {tier : Nat} {k : Kind} {op : BinaryOp} (h : tierOp? tier k = some op) :
    tierBehind? k = some tier := by
  match tier with
  | 0 | 1 | 2 | 3 => cases k <;> first | rfl | cases h
  | _ + 4 => cases h

theorem tierBehind?_kind (op : BinaryOp) : tierBehind? op.kind = some op.tier := by
  rcases op with (_ | _ | _ | _ | _ | _) | (_ | _ | _ | _ | _ | _) | (_ | _) <;> rfl

theorem tierOp?_kind {op : BinaryOp} (h : op.tier < 4) : tierOp? op.tier op.kind = some op := by
  rcases op with (_ | _ | _ | _ | _ | _) | (_ | _ | _ | _ | _ | _) | (_ | _)
  all_goals first | rfl | exact absurd h (by decide)

/-- Nothing behind the tokens goes on with what is read at a tier. -/
def Stops (tier : Nat) (rest : List Token) : Prop :=
  ∀ t ∈ (Region.settle rest).head?, ∀ b ∈ tierBehind? t.kind, b < tier

theorem Stops.mono {tier tier' : Nat} {rest : List Token} (h : Stops tier rest) (hle : tier ≤ tier') :
    Stops tier' rest :=
  fun t ht b hb => Nat.lt_of_lt_of_le (h t ht b hb) hle

section Operator

variable {op : BinaryOp} {t : Token} {ts : List Token}

theorem settle_operator (hkind : t.kind = op.kind) : Region.settle (t :: ts) = t :: ts := by
  have hcomment : t.kind ≠ .comment := by
    intro h
    have := tierBehind?_kind op
    rw [← hkind, h] at this
    cases this
  exact List.dropWhile_cons_of_neg (by simp [Token.isComment, hcomment])

theorem Stops.operator {tier : Nat} (hkind : t.kind = op.kind) (htier : op.tier < tier) : Stops tier (t :: ts) := by
  intro t' ht' b hb
  rw [settle_operator hkind] at ht'
  cases ht'
  rw [hkind, tierBehind?_kind] at hb
  cases hb
  exact htier

end Operator

end Grammar

namespace Formula

open Grammar

/-- A production reads glyphs as a formula, where nothing behind them goes on at a tier. -/
def Reads {n : Nat} (p : (r : Region) → r.size ≤ n → Parse (Step r Expr)) (tier : Nat) (f : Formula)
    (gs : List Glyph) : Prop :=
  ∀ r h ts rest, r.ahead = ts ++ rest → ts.map Token.glyph = gs → Stops tier rest →
    ∃ e l, p r h = pure (e, l) ∧ f.Is e ∧ l.ahead = Region.settle rest

variable {n : Nat} {below : Below Parse n} {ctx : Context} {f g : Formula} {gs gs' : List Glyph} {ts rest : List Token}
  {r : Region} {h : r.size ≤ n}

/-! ### Regions that begin with a formula -/

/-- Nothing is skipped in front of a formula. -/
theorem settle_spelt (hts : ts.map Token.glyph = gs) (hbegins : Begins gs) :
    Region.settle (ts ++ rest) = ts ++ rest := by
  obtain ⟨x, gs', rfl, hopens⟩ := hbegins
  obtain ⟨t, ts, rfl, ht, _⟩ := List.map_eq_cons_iff.mp hts
  replace hopens : opens t.kind = true := (congrArg (fun x => opens x.kind) ht).trans hopens
  have hcomment : t.kind ≠ .comment := ne_of_opens hopens rfl
  exact List.dropWhile_cons_of_neg (by simp [Token.isComment, hcomment])

/-- Behind the token in front of a formula. -/
theorem next?_spelt {t : Token} (hahead : r.ahead = t :: (ts ++ rest)) (hts : ts.map Token.glyph = gs)
    (hbegins : Begins gs) :
    ∃ l : Left r, r.next? = some (t, l) ∧ l.ahead = ts ++ rest := by
  obtain ⟨l, hnext, hl⟩ := Region.next?_eq_some hahead
  refine ⟨l, hnext, ?_⟩
  rw [hl]
  exact settle_spelt hts hbegins

/-! ### Chains of operands -/

section Chain

variable {op? : Kind → Option BinaryOp} {operand : (r : Region) → r.size ≤ n → Parse (Step r Expr)}
  {tier : Nat}

/-- The production has come to read glyphs as a formula, and goes on from there. -/
def Goes (op? : Kind → Option BinaryOp) (operand : (r : Region) → r.size ≤ n → Parse (Step r Expr))
    (tier : Nat) (f : Formula) (gs : List Glyph) : Prop :=
  ∀ r h ts rest, r.ahead = ts ++ rest → ts.map Token.glyph = gs → Stops tier rest →
    ∃ (e : Expr) (l : Left r), f.Is e ∧ l.ahead = Region.settle rest ∧
      chain op? operand r h =
        l.loop h e fun r₀ h₀ lhs => link? op? operand r.head.span lhs r₀ (Region.le_of_lt h₀)

theorem Reads.goes (hf : Reads operand tier f gs) : Goes op? operand tier f gs := by
  intro r h ts rest hahead hts hstops
  obtain ⟨e, l, hread, he, hl⟩ := hf r h ts rest hahead hts hstops
  refine ⟨e, l, he, hl, ?_⟩
  unfold chain
  rw [hread, pure_bind]

/-- One more operator and its right operand. -/
theorem Goes.link {op : BinaryOp} (hf : Goes op? operand tier f gs) (hop : op? op.kind = some op)
    (htier : op.tier < tier) (hg : Reads operand tier g gs')
    (hbegins : Begins gs') :
    Goes op? operand tier (.binary op f g) (gs ++ .mark op.kind :: gs') := by
  intro r h ts rest hahead hts hstops
  obtain ⟨left, right, rfl, hleft, hright⟩ := List.map_eq_append_iff.mp hts
  obtain ⟨t, right, rfl, ht, hright⟩ := List.map_eq_cons_iff.mp hright
  have hkind : t.kind = op.kind := congrArg Glyph.kind ht
  obtain ⟨lhs, l, hlhs, hl, hchain⟩ := hf r h left (t :: (right ++ rest)) (by simpa using hahead) hleft
    (.operator hkind htier)
  obtain ⟨l₁, hnext, hl₁⟩ := next?_spelt (hl.trans (settle_operator hkind)) hright hbegins
  obtain ⟨rhs, l₂, hread, hrhs, hl₂⟩ := hg l₁.toRegion (l₁.within (l.within h)) right rest hl₁ hright hstops
  refine ⟨.binary op lhs rhs ((l₁.left l₂).spanFrom r.head.span), l.left (l₁.left l₂),
    ⟨lhs, rhs, _, rfl, hlhs, hrhs⟩, hl₂, ?_⟩
  rw [hchain]
  refine Left.loop_of_some ?_
  unfold link?
  simp only [hnext, hkind, hop, hread, Left.read, map_pure, pure_bind]

/-- A chain ends where nothing goes on with it. -/
theorem Goes.reads {tier' : Nat} (hf : Goes op? operand tier f gs) (hle : tier' ≤ tier)
    (hop : ∀ k op, op? k = some op → tierBehind? k = some tier') : Reads (chain op? operand) tier' f gs := by
  intro r h ts rest hahead hts hstops
  obtain ⟨e, l, he, hl, hchain⟩ := hf r h ts rest hahead hts (hstops.mono hle)
  refine ⟨e, l, ?_, he, hl⟩
  rw [hchain]
  refine Left.loop_of_none ?_
  unfold link?
  cases hrest : Region.settle rest with
  | nil => rw [Region.next?_eq_none (hl.trans hrest)]
  | cons t _ =>
      obtain ⟨l₁, hnext, _⟩ := Region.next?_eq_some (hl.trans hrest)
      rw [hnext]
      cases hfound : op? t.kind with
      | none => simp only [hfound]
      | some op => exact absurd (hstops t (by rw [hrest]; rfl) _ (hop _ _ hfound)) (Nat.lt_irrefl _)

end Chain

/-! ### From a tier to looser ones -/

theorem accept?_eq_none {l : Left r} {k : Kind} (hl : l.ahead = Region.settle rest)
    (hk : ∀ t ∈ (Region.settle rest).head?, t.kind ≠ k) : l.accept? k = none :=
  Left.accept?_of_ne (hl ▸ hk)

theorem Reads.climb {tier : Nat} (htier : tier < 5) (hf : Reads (atTier below ctx (tier + 1)) (tier + 1) f gs) :
    Reads (atTier below ctx tier) tier f gs := by
  by_cases hchain : tier < 4
  · rw [atTier_eq hchain]
    exact hf.goes.reads (Nat.le_succ _) fun _ _ => tierBehind?_of_tierOp?
  · obtain rfl : tier = 4 := by omega
    intro r h ts rest hahead hts hstops
    obtain ⟨e, l, hread, he, hl⟩ := hf r h ts rest hahead hts (hstops.mono (Nat.le_succ _))
    refine ⟨e, l, ?_, he, hl⟩
    have hpower : l.accept? .starStar = none := by
      refine accept?_eq_none hl fun t ht hk => ?_
      have := hstops t ht 4 (by rw [hk]; rfl)
      omega
    change power below ctx r h = _
    unfold power
    rw [show Grammar.unary below ctx r h = pure (e, l) from hread]
    simp only [pure_bind, hpower]

theorem Reads.loosen {tier tier' : Nat} (hle : tier' ≤ tier) (htier : tier ≤ 5)
    (hf : Reads (atTier below ctx tier) tier f gs) : Reads (atTier below ctx tier') tier' f gs := by
  obtain ⟨d, rfl⟩ := Nat.exists_eq_add_of_le hle
  induction d with
  | zero => exact hf
  | succ d ih => exact ih (Nat.le_add_right _ _) (by omega) (hf.climb (by omega))

/-! ### Operands -/

theorem postfixes_eq {e : Expr} {l : Left r} (hprimary : primary below ctx r h = pure (e, l))
    (hl : l.ahead = Region.settle rest) (hstops : Stops 5 rest) : postfixes below ctx r h = pure (e, l) := by
  unfold postfixes
  rw [hprimary]
  simp only [pure_bind]
  refine Left.loop_of_none ?_
  unfold operatorBehind?
  cases hrest : Region.settle rest with
  | nil => rw [Region.next?_eq_none (hl.trans hrest)]
  | cons t _ =>
      obtain ⟨l₁, hnext, _⟩ := Region.next?_eq_some (hl.trans hrest)
      have hbehind : ∀ b ∈ tierBehind? t.kind, b < 5 := hstops t (by rw [hrest]; rfl)
      have hbracket : t.kind ≠ .leftBracket := by
        intro hk
        exact absurd (hbehind 5 (by rw [hk]; rfl)) (Nat.lt_irrefl _)
      have hplain : postfixOp? t.kind = none := by
        unfold postfixOp?
        split
        · exact absurd (hbehind 5 (by simp [tierBehind?, *])) (Nat.lt_irrefl _)
        · exact absurd (hbehind 5 (by simp [tierBehind?, *])) (Nat.lt_irrefl _)
        · rfl
      simp only [hnext, if_neg hbracket, hplain]

theorem prefixOp?_of_isLiteral {k : Kind} (h : k.isLiteral = true) : prefixOp? k = none := by
  unfold prefixOp?
  split <;> first | rfl | simp_all [Kind.isLiteral]

theorem literal_reads (s : Spelling) : Reads (atTier below ctx 5) 5 (.literal s) (Formula.literal s).print := by
  intro r h ts rest hahead hts hstops
  obtain ⟨t, rfl, ht⟩ := List.map_eq_singleton_iff.mp hts
  obtain ⟨l, hnext, hl⟩ := Region.next?_eq_some hahead
  have hkind : t.kind.isLiteral = true := (congrArg (·.kind.isLiteral) ht).trans s.isLiteral
  have hplain : prefixOp? t.kind = none := prefixOp?_of_isLiteral hkind
  have hahead' : l.ahead = Region.settle rest := by rw [hl]; rfl
  refine ⟨.literal s.value t.span, l, ?_, ⟨_, rfl⟩, hahead'⟩
  change Grammar.unary below ctx r h = _
  unfold Grammar.unary
  simp only [hnext, hplain]
  refine postfixes_eq ?_ hahead' hstops
  unfold primary
  simp only [hnext, hkind, if_true, s.reads ctx.source t ht, lift_ok, pure_bind]

/-! ### Parentheses and whole expressions -/

/-- Behind a parenthesis that a formula begins with another begins: it is no list of parameters. -/
theorem print_second {x : Glyph} (hprint : f.print = x :: gs) (hkind : x.kind = .leftParen) :
    Begins gs := by
  induction f generalizing x gs with
  | literal s =>
      obtain ⟨rfl, rfl⟩ := List.cons.inj hprint
      have := s.isLiteral
      rw [hkind] at this
      cases this
  | unary op f _ =>
      obtain ⟨rfl, _⟩ := List.cons.inj hprint
      cases op <;> cases hkind
  | binary op f g ihf _ =>
      unfold print enclose at hprint
      obtain ⟨x', gs', hf, hopens⟩ := print_begins f
      split at hprint
      · obtain ⟨_, rfl⟩ := List.cons.inj hprint
        exact ⟨x', _, by rw [hf]; rfl, hopens⟩
      · rw [hf] at hprint
        obtain ⟨rfl, rfl⟩ := List.cons.inj hprint
        obtain ⟨x₁, gs₁, rfl, hopens₁⟩ := ihf hf hkind
        exact ⟨x₁, _, rfl, hopens₁⟩

theorem beginsLambda_eq_false (hahead : r.ahead = ts ++ rest) (hts : ts.map Token.glyph = f.print) :
    beginsLambda r = false := by
  obtain ⟨x, gs, hprint, _⟩ := print_begins f
  obtain ⟨t, ts, rfl, ht, hts⟩ := List.map_eq_cons_iff.mp (hts.trans hprint)
  have hhead : r.head = t := by rw [Region.head, hahead]; rfl
  unfold beginsLambda
  by_cases hkind : t.kind = .leftParen
  · obtain ⟨x', gs', rfl, hopens⟩ := print_second hprint ((congrArg Glyph.kind ht).symm.trans hkind)
    obtain ⟨t', ts, rfl, ht', _⟩ := List.map_eq_cons_iff.mp hts
    replace hopens : opens t'.kind = true := (congrArg (fun x => opens x.kind) ht').trans hopens
    have hpeek : r.peek 1 = t' := by
      have plain : t.isComment = false := by rw [Token.isComment, hkind]; rfl
      have plain' : t'.isComment = false := by
        have : t'.kind ≠ .comment := ne_of_opens hopens rfl
        simp [Token.isComment, this]
      unfold Region.peek
      rw [List.headD_eq_head?_getD, Region.head?_dropTokens, hahead, List.cons_append, List.cons_append,
        Region.significant_cons plain, Region.significant_cons plain']
      rfl
    have hname : t'.kind ≠ .identifier := ne_of_opens hopens rfl
    have hclosing : t'.kind ≠ .rightParen := ne_of_opens hopens rfl
    simp [Region.peekIs, hpeek, hname, hclosing]
  · have : r.headIs .leftParen = false := by simp [Region.headIs, hhead, hkind]
    rw [this, Bool.false_and, Bool.false_and]

/-- Nothing behind the tokens goes on with an expression. -/
def Ends (rest : List Token) : Prop :=
  ∀ t ∈ (Region.settle rest).head?, tierBehind? t.kind = none ∧ assignOp? t.kind = none

theorem Ends.stops (hends : Ends rest) : Stops 0 rest := by
  intro t ht b hb
  rw [(hends t ht).1] at hb
  cases hb

theorem expression_eq (hdepth : ctx.depth < maxDepth)
    (hf : Reads (atTier below { ctx with depth := ctx.depth + 1 } 0) 0 f f.print) (hahead : r.ahead = ts ++ rest)
    (hts : ts.map Token.glyph = f.print) (hends : Ends rest) :
    ∃ e l, expression below ctx r h = pure (e, l) ∧ f.Is e ∧ l.ahead = Region.settle rest := by
  obtain ⟨e, l, hread, he, hl⟩ := hf r h ts rest hahead hts hends.stops
  refine ⟨e, l, ?_, he, hl⟩
  unfold expression
  rw [nested_eq hdepth, beginsLambda_eq_false hahead hts, if_neg (by decide)]
  unfold assignment
  rw [show logical below { ctx with depth := ctx.depth + 1 } r h = pure (e, l) from hread]
  simp only [pure_bind]
  cases hrest : Region.settle rest with
  | nil =>
      have hnext : l.next? = none := congrArg l.read (Region.next?_eq_none (hl.trans hrest))
      simp only [hnext]
  | cons t _ =>
      obtain ⟨l₁, hnext, _⟩ := Region.next?_eq_some (hl.trans hrest)
      have hnext' : l.next? = some (t, l.left l₁) := congrArg l.read hnext
      simp only [hnext', (hends t (by rw [hrest]; rfl)).2]

theorem carveParens_eq {o c : Token} {inner : List Token} (hahead : r.ahead = o :: (inner ++ c :: rest))
    (ho : o.kind = .leftParen) (hinner : inner.map Token.glyph = f.print) (hc : c.kind = .rightParen) :
    ∃ l l' : Left r, r.carveParens = .ok (l, l') ∧ l.ahead = inner ∧ l'.ahead = Region.settle rest := by
  obtain ⟨l, l', hcarve, hl, hl'⟩ := (f.balanced hinner).carveParens hahead ho hc
    (settle_spelt hinner (print_begins f))
  have hwhole : Region.settle (inner ++ []) = inner ++ [] := settle_spelt hinner (print_begins f)
  rw [List.append_nil] at hwhole
  exact ⟨l, l', hcarve, hl.trans hwhole, hl'⟩

/-- Parentheses leave nothing in the tree. What stands in them is read by itself, one level down. -/
theorem parens_reads (htied : below.Tied) (hdepth : ctx.depth < maxDepth)
    (hf : ∀ n, Reads (atTier (Grammar.below n) { ctx with depth := ctx.depth + 1 } 0) 0 f f.print) :
    Reads (atTier below ctx 5) 5 f (.mark .leftParen :: f.print ++ [.mark .rightParen]) := by
  intro r h ts rest hahead hts hstops
  obtain ⟨o, ts, rfl, ho, hts⟩ := List.map_eq_cons_iff.mp hts
  obtain ⟨inner, closing, rfl, hinner, hts⟩ := List.map_eq_append_iff.mp hts
  obtain ⟨c, rfl, hc⟩ := List.map_eq_singleton_iff.mp hts
  have hopening : o.kind = .leftParen := congrArg Glyph.kind ho
  have hahead : r.ahead = o :: (inner ++ c :: rest) := by simpa using hahead
  obtain ⟨l, l', hcarve, hl, hl'⟩ := carveParens_eq hahead hopening hinner (congrArg Glyph.kind hc)
  obtain ⟨e, m, hread, he, hm⟩ : ∃ e m, expressionAt ctx l.toRegion = pure (e, m) ∧ f.Is e ∧
      m.ahead = Region.settle [] :=
    expression_eq hdepth (hf _) (hl.trans (List.append_nil _).symm) hinner nofun
  refine ⟨e, l', ?_, he, hl'⟩
  obtain ⟨l₁, hnext, _⟩ := Region.next?_eq_some hahead
  have hmore : l.hasNext = true := by
    obtain ⟨x, gs, hprint, _⟩ := print_begins f
    obtain ⟨t, ts, rfl, _⟩ := List.map_eq_cons_iff.mp (hinner.trans hprint)
    rw [Region.hasNext, hl]
    rfl
  have hfinish : m.finish = .ok () := by
    rw [Region.finish, Region.hasNext, hm]
    rfl
  change Grammar.unary below ctx r h = _
  unfold Grammar.unary
  simp only [hnext, hopening, prefixOp?]
  refine postfixes_eq ?_ hl' hstops
  unfold primary
  simp only [hnext, hopening]
  unfold parenthesized
  simp only [hcarve, lift_ok, pure_bind, hmore, htied.expression, hread, hfinish]
  rfl

/-! ### Operators that are not in a chain -/

theorem unary_reads {op : PrefixOp} (htied : below.Tied) (hdepth : ctx.depth < maxDepth)
    (hf : ∀ n, Reads (atTier (Grammar.below n) { ctx with depth := ctx.depth + 1 } 5) 5 f gs)
    (hbegins : Begins gs) :
    Reads (atTier below ctx 5) 5 (.unary op f) (.mark op.kind :: gs) := by
  intro r h ts rest hahead hts hstops
  obtain ⟨t, ts, rfl, ht, hts⟩ := List.map_eq_cons_iff.mp hts
  have hop : prefixOp? t.kind = some op.op := by
    rw [show t.kind = op.kind from congrArg Glyph.kind ht]
    cases op <;> rfl
  obtain ⟨l₁, hnext, hl₁⟩ := next?_spelt hahead hts hbegins
  obtain ⟨operand, l₂, hread, hoperand, hl₂⟩ := hf _ l₁.toRegion l₁.size_le ts rest hl₁ hts hstops
  have hread : unaryAt { ctx with depth := ctx.depth + 1 } l₁.toRegion = pure (operand, l₂) := hread
  refine ⟨.unary op.op operand ((l₁.left l₂).spanFrom t.span), l₁.left l₂, ?_, ⟨_, _, rfl, hoperand⟩, hl₂⟩
  have hplain : ¬(op.op = .preIncrement ∨ op.op = .preDecrement) := by cases op <;> decide
  change Grammar.unary below ctx r h = _
  unfold Grammar.unary
  simp only [hnext, hop, nested_eq hdepth, pure_bind, htied.unary, hread, Left.read, map_pure, if_neg hplain]

theorem power_reads (htied : below.Tied) (hf : Reads (atTier below ctx 5) 5 f gs)
    (hg : ∀ n, Reads (atTier (Grammar.below n) ctx 4) 4 g gs')
    (hbegins : Begins gs') :
    Reads (atTier below ctx 4) 4 (.binary (.arithmetic .pow) f g) (gs ++ .mark .starStar :: gs') := by
  intro r h ts rest hahead hts hstops
  obtain ⟨left, right, rfl, hleft, hright⟩ := List.map_eq_append_iff.mp hts
  obtain ⟨t, right, rfl, ht, hright⟩ := List.map_eq_cons_iff.mp hright
  have hkind : t.kind = .starStar := congrArg Glyph.kind ht
  have hop : t.kind = (BinaryOp.arithmetic .pow).kind := hkind
  obtain ⟨base, l, hbase, hfbase, hl⟩ := hf r h left (t :: (right ++ rest)) (by simpa using hahead) hleft
    (.operator hop (Nat.lt_succ_self 4))
  obtain ⟨l₁, hnext, hl₁⟩ := next?_spelt (hl.trans (settle_operator hop)) hright hbegins
  obtain ⟨exponent, l₂, hread, hexponent, hl₂⟩ := hg _ l₁.toRegion l₁.size_le right rest hl₁ hright hstops
  have hread : powerAt ctx l₁.toRegion = pure (exponent, l₂) := hread
  have haccept : l.accept? .starStar = some (t, l.left l₁) := by
    unfold Left.accept? Region.accept?
    simp [hnext, hkind, Left.read]
  refine ⟨.binary (.arithmetic .pow) base exponent ((l.left (l₁.left l₂)).spanFrom r.head.span),
    l.left (l₁.left l₂), ?_, ⟨_, _, _, rfl, hfbase, hexponent⟩, hl₂⟩
  change power below ctx r h = _
  unfold power
  rw [show Grammar.unary below ctx r h = pure (base, l) from hbase]
  simp only [pure_bind, haccept, htied.power]
  rw [show powerAt ctx (l.left l₁).toRegion = pure (exponent, l₂) from hread]
  rfl

/-! ### All formulas -/

/-- The formula without parentheses is read by the production of its tier. Of a chain, its last operator is the
next to be read once the rest has been. -/
structure Core (f : Formula) : Prop where
  reads {n : Nat} {below : Below Parse n} {ctx : Context} (htied : below.Tied)
      (hdepth : ctx.depth + f.depth ≤ maxDepth) :
    Reads (atTier below ctx (min f.tier 5)) (min f.tier 5) f f.print
  goes {n : Nat} {below : Below Parse n} {ctx : Context} (htied : below.Tied) (hdepth : ctx.depth + f.depth ≤ maxDepth)
      (htier : f.tier < 4) :
    Goes (tierOp? f.tier) (atTier below ctx (f.tier + 1)) (f.tier + 1) f f.print

namespace Core

variable {position : Nat}

/-- In any position, with the parentheses that it takes there. -/
theorem reads_enclose (hf : Core f) (htied : below.Tied) (hposition : position ≤ 5)
    (hdepth : ctx.depth + f.deepen position f.depth ≤ maxDepth) :
    Reads (atTier below ctx position) position f (f.enclose position f.print) := by
  unfold deepen at hdepth
  unfold enclose
  split at hdepth
  case isTrue hlooser =>
    rw [if_pos hlooser]
    refine (parens_reads htied (by omega) fun n => ?_).loosen hposition (Nat.le_refl _)
    refine (hf.reads (below_tied n) ?_).loosen (Nat.zero_le _) (Nat.min_le_right _ _)
    exact Nat.le_trans (by simp only; omega) hdepth
  case isFalse htighter =>
    rw [if_neg htighter]
    exact (hf.reads htied hdepth).loosen (by omega) (Nat.min_le_right _ _)

/-- As the left operand of a chain, where a chain of the same tier takes no parentheses. -/
theorem goes_enclose (hf : Core f) (htied : below.Tied) (hposition : position < 4)
    (hdepth : ctx.depth + f.deepen position f.depth ≤ maxDepth) :
    Goes (tierOp? position) (atTier below ctx (position + 1)) (position + 1) f (f.enclose position f.print) := by
  by_cases htier : f.tier = position
  · -- The one case where the operand is itself a chain of this tier: the production is in the middle of it.
    subst htier
    have hloose : ¬f.tier < f.tier := Nat.lt_irrefl _
    rw [deepen, if_neg hloose] at hdepth
    rw [enclose, if_neg hloose]
    exact hf.goes htied hdepth hposition
  · have hiff : f.tier < position ↔ f.tier < position + 1 := by omega
    rw [deepen, if_congr hiff rfl rfl] at hdepth
    rw [enclose, if_congr hiff rfl rfl]
    exact (hf.reads_enclose htied (by omega) hdepth).goes

theorem literal (s : Spelling) : Core (.literal s) where
  reads _ _ := literal_reads s
  goes _ _ htier := absurd htier (by simp [tier])

theorem unary (op : PrefixOp) (hf : Core f) : Core (.unary op f) where
  reads {n below ctx} htied hdepth := by
    rw [depth] at hdepth
    refine unary_reads htied (by omega) (fun n => ?_) (print_begins f).enclose
    exact hf.reads_enclose (below_tied n) (Nat.le_refl _) (by simp only; omega)
  goes _ _ htier := absurd htier (by simp [tier])

theorem power (hf : Core f) (hg : Core g) : Core (.binary (.arithmetic .pow) f g) where
  reads {n below ctx} htied hdepth := by
    simp only [depth, BinaryOp.left, BinaryOp.right] at hdepth
    refine power_reads htied (hf.reads_enclose htied (Nat.le_refl _) (by omega)) (fun n => ?_)
      (print_begins g).enclose
    exact hg.reads_enclose (below_tied n) (by decide) (by omega)
  goes _ _ htier := absurd htier (by simp [tier, BinaryOp.tier])

theorem chain {op : BinaryOp} (hop : op.tier < 4) (hf : Core f) (hg : Core g) : Core (.binary op f g) := by
  have goes {n : Nat} {below : Below Parse n} {ctx : Context} (htied : below.Tied)
      (hdepth : ctx.depth + (Formula.binary op f g).depth ≤ maxDepth) :
      Goes (tierOp? op.tier) (atTier below ctx (op.tier + 1)) (op.tier + 1) (.binary op f g)
        (Formula.binary op f g).print := by
    rw [depth, BinaryOp.left_eq hop, BinaryOp.right_eq hop] at hdepth
    rw [print, BinaryOp.left_eq hop, BinaryOp.right_eq hop]
    exact (hf.goes_enclose htied hop (by omega)).link (tierOp?_kind hop) (Nat.lt_succ_self _)
      (hg.reads_enclose htied (by omega) (by omega)) (print_begins g).enclose
  refine ⟨fun {n below ctx} htied hdepth => ?_, fun htied hdepth _ => goes htied hdepth⟩
  rw [show min (Formula.binary op f g).tier 5 = op.tier from Nat.min_eq_left (by rw [tier]; omega), atTier_eq hop]
  exact (goes htied hdepth).reads (Nat.le_succ _) fun _ _ => tierBehind?_of_tierOp?

end Core

theorem core (f : Formula) : Core f := by
  induction f with
  | literal s => exact .literal s
  | unary op f ih => exact .unary op ih
  | binary op f g ihf ihg =>
      by_cases hop : op.tier < 4
      · exact .chain hop ihf ihg
      · obtain rfl := BinaryOp.eq_pow hop
        exact .power ihf ihg

/-- The tokens of a formula, and no more, are read as the formula. -/
theorem expressionAt_print (f : Formula) (hdepth : ctx.depth + 1 + f.depth ≤ maxDepth)
    (hahead : r.ahead = ts ++ rest) (hts : ts.map Token.glyph = f.print) (hends : Ends rest) :
    ∃ e l, expressionAt ctx r = pure (e, l) ∧ f.Is e ∧ l.ahead = Region.settle rest := by
  rw [expressionAt_eq]
  refine expression_eq (by omega) ?_ hahead hts hends
  exact f.core.reads_enclose (below_tied _) (Nat.zero_le _) hdepth

/-- Minus one squared, less five times a difference, compared with the opposite of a power. -/
theorem expressionAt_print_grouped :
    let source : Source := ⟨0, "unit.st", "-1 ** 2 - (3 - 4) * 5 < -(6 ** 7);"⟩
    let number (n : Nat) (h : Grammar.literal source ⟨.integer, n.repr, ⟨0, 1, 0⟩⟩ = .ok (.integer n false)) :=
      Formula.literal (.ofToken rfl h)
    let f : Formula := .binary (.comparison .lt)
      (.binary (.arithmetic .sub) (.binary (.arithmetic .pow) (.unary .negate (number 1 rfl)) (number 2 rfl))
        (.binary (.arithmetic .mul) (.binary (.arithmetic .sub) (number 3 rfl) (number 4 rfl)) (number 5 rfl)))
      (.unary .negate (.binary (.arithmetic .pow) (number 6 rfl) (number 7 rfl)))
    let r := Region.ofTokens source (source.tokens.toOption.getD [])
    let semicolon : Token := ⟨.semicolon, ";", ⟨33, 34, 0⟩⟩
    ∃ e l, expressionAt { source } r = pure (e, l) ∧ f.Is e ∧ l.ahead = [semicolon] := by
  intro source number f r semicolon
  have hrest : r.ahead.drop f.print.length = [semicolon] := by decide +kernel
  have hahead : r.ahead = r.ahead.take f.print.length ++ [semicolon] := by rw [← hrest, List.take_append_drop]
  have hends : Ends [semicolon] := by
    intro t ht
    cases ht
    exact ⟨rfl, rfl⟩
  exact expressionAt_print f (by decide +kernel) hahead (by decide +kernel) hends

end Formula
end OnePass
