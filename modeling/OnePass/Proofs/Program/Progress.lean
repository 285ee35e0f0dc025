import OnePass.Proofs.Grammar.Sequence
import OnePass.Proofs.Twin.Unit

/-!
Reading comes to an end because it gets on. The rules of the grammar, with the productions themselves wherever
a rule calls one, are equations that say nothing of how far reading may go; they have one solution, and so
have those of loops. Every production that succeeds has read a token, and whatever is carved out of a region
has fewer tokens than the region.
-/

namespace OnePass

/-! ### Loops -/

section Loops

variable {m : Type → Type} [Monad m] {σ : Type} {step : (r : Region) → σ → m (Option (Step r σ))}
  {f : (r : Region) → σ → m (Rest r σ)}

/-- One round, and then whatever `f` does with what is left. -/
def oneRound (step : (r : Region) → σ → m (Option (Step r σ))) (f : (r : Region) → σ → m (Rest r σ))
    (r : Region) (s : σ) : m (Rest r σ) := do
  let o ← step r s
  o.elim (return (s, .whole r)) fun out => do
    let done ← f out.2 out.1
    return (done.1, (out.2.leftOfKept done.2).kept)

theorem loop_oneRound (r : Region) (s : σ) :
    loop r s (fun r' _ => step r') = oneRound step (fun r s => loop r s fun r' _ => step r') r s := by
  rw [loop_eq]
  unfold oneRound
  congr 1
  funext o
  rcases o with _ | ⟨v, l⟩ <;> rfl

/-- Only loops go round and round. -/
theorem eq_loop_iff :
    (∀ r s, f r s = oneRound step f r s) ↔ f = fun r s => loop r s fun r' _ => step r' := by
  refine ⟨fun hf => funext fun r => funext fun s => ?_, fun hf r s => hf ▸ loop_oneRound r s⟩
  obtain ⟨size, hsize⟩ : ∃ size, r.size = size := ⟨_, rfl⟩
  induction size using Nat.strongRecOn generalizing r s with
  | _ size ih =>
      rw [hf, loop_oneRound]
      unfold oneRound
      congr 1
      funext o
      rcases o with _ | ⟨v, l⟩
      · rfl
      · exact congrArg (· >>= _) (ih l.size (hsize ▸ l.shorter) l.toRegion v rfl)

end Loops

namespace Grammar

/-! ### Productions -/

/-- The productions that others call, for all regions. -/
@[ext]
structure Productions where
  statement : Context → (r : Region) → Parse (Step r Stmt)
  expression : Context → (r : Region) → Parse (Step r Expr)
  unary : Context → (r : Region) → Parse (Step r Expr)
  power : Context → (r : Region) → Parse (Step r Expr)
  type : TypeSetting → (r : Region) → (what : String) → Except Diagnostic (Step r Ty)

namespace Productions

def below (p : Productions) (n : Nat) : Below Parse n where
  statement ctx r _ := p.statement ctx r
  expression ctx r _ := p.expression ctx r
  unary ctx r _ := p.unary ctx r
  power ctx r _ := p.power ctx r

/-- Each production is its rule, where what the rule calls are the productions themselves. -/
structure Solves (p : Productions) : Prop where
  statement ctx r : p.statement ctx r = Grammar.statement (p.below r.size) ctx r r.size_le
  expression ctx r : p.expression ctx r = Grammar.expression (p.below r.size) ctx r r.size_le
  unary ctx r : p.unary ctx r = Grammar.unary (p.below r.size) ctx r r.size_le
  power ctx r : p.power ctx r = Grammar.power (p.below r.size) ctx r r.size_le
  type s r what : p.type s r what = typeFrom s r (fun r' _ => p.type s r') what

end Productions

def productions : Productions where
  statement ctx r := (below (r.size + 1)).statement ctx r r.size_lt
  expression ctx r := (below (r.size + 1)).expression ctx r r.size_lt
  unary ctx r := (below (r.size + 1)).unary ctx r r.size_lt
  power ctx r := (below (r.size + 1)).power ctx r r.size_lt
  type := Grammar.type

/-- How far the productions may go is no matter. -/
theorem below_eq (n : Nat) : below n = productions.below n := by
  have same {r : Region} (h : r.size < n) :
      (below n : Below Parse n).restrict (Nat.succ_le_of_lt h) = (below (r.size + 1)).restrict (Nat.le_refl _) :=
    restrict_below_eq _ _
  rw [Productions.below, productions, Below.mk.injEq]
  refine ⟨?_, ?_, ?_, ?_⟩ <;> funext ctx r h
  · exact congrArg (fun b : Below Parse (r.size + 1) => b.statement ctx r r.size_lt) (same h)
  · exact congrArg (fun b : Below Parse (r.size + 1) => b.expression ctx r r.size_lt) (same h)
  · exact congrArg (fun b : Below Parse (r.size + 1) => b.unary ctx r r.size_lt) (same h)
  · exact congrArg (fun b : Below Parse (r.size + 1) => b.power ctx r r.size_lt) (same h)

theorem typeUpTo_congr {s : TypeSetting} {n n' : Nat} {r : Region} (h : r.size < n) (h' : r.size < n')
    (what : String) : typeUpTo s n r h what = typeUpTo s n' r h' what := by
  induction n generalizing n' r what with
  | zero => exact absurd h Region.not_lt_zero
  | succ n ih =>
      cases n' with
      | zero => exact absurd h' Region.not_lt_zero
      | succ n' =>
          unfold typeUpTo
          congr 1
          funext r' hr' what'
          exact ih _ _ _

theorem productions_solves : productions.Solves where
  statement ctx r := congrArg (Grammar.statement · ctx r r.size_le) (below_eq r.size)
  expression ctx r := congrArg (Grammar.expression · ctx r r.size_le) (below_eq r.size)
  unary ctx r := congrArg (Grammar.unary · ctx r r.size_le) (below_eq r.size)
  power ctx r := congrArg (Grammar.power · ctx r r.size_le) (below_eq r.size)
  type s r what := by
    refine congrArg (typeFrom s r · what) ?_
    funext r' hr' what'
    exact typeUpTo_congr _ _ _

/-- The rules have no other solution. Two solutions agree on the regions below any size. -/
theorem Productions.Solves.eq {p : Productions} (hp : p.Solves) : p = productions := by
  have same (n : Nat) : p.below n = Grammar.below n := by
    induction n with
    | zero =>
        rw [below, Grammar.below, Below.mk.injEq]
        refine ⟨?_, ?_, ?_, ?_⟩ <;> funext ctx r h <;> exact absurd h Region.not_lt_zero
    | succ n ih =>
        have inner {r : Region} (h : r.size < n + 1) :
            p.below r.size = (Grammar.below n).restrict (Region.le_of_lt_succ h) := ih ▸ rfl
        rw [below, Grammar.below, Below.mk.injEq]
        refine ⟨?_, ?_, ?_, ?_⟩ <;> funext ctx r h
        · exact (hp.statement ctx r).trans (congrArg (Grammar.statement · ctx r r.size_le) (inner h))
        · exact (hp.expression ctx r).trans (congrArg (Grammar.expression · ctx r r.size_le) (inner h))
        · exact (hp.unary ctx r).trans (congrArg (Grammar.unary · ctx r r.size_le) (inner h))
        · exact (hp.power ctx r).trans (congrArg (Grammar.power · ctx r r.size_le) (inner h))
  have types (s : TypeSetting) (n : Nat) (r : Region) (h : r.size < n) (what : String) :
      p.type s r what = typeUpTo s n r h what := by
    induction n generalizing r what with
    | zero => exact absurd h Region.not_lt_zero
    | succ n ih =>
        rw [hp.type]
        refine congrArg (typeFrom s r · what) ?_
        funext r' hr' what'
        exact ih r' _ what'
  refine Productions.ext ?_ ?_ ?_ ?_ ?_
  · funext ctx r
    exact congrArg (fun b : Below Parse (r.size + 1) => b.statement ctx r r.size_lt) (same _)
  · funext ctx r
    exact congrArg (fun b : Below Parse (r.size + 1) => b.expression ctx r r.size_lt) (same _)
  · funext ctx r
    exact congrArg (fun b : Below Parse (r.size + 1) => b.unary ctx r r.size_lt) (same _)
  · funext ctx r
    exact congrArg (fun b : Below Parse (r.size + 1) => b.power ctx r r.size_lt) (same _)
  · funext s r what
    exact types s (r.size + 1) r r.size_lt what

end Grammar

/-! ### Progress -/

/-- Tokens were read from the front of `r`, not all of them comments, and `l` is left. -/
def Region.Advances (r l : Region) : Prop := ∃ ts, r.Reads ts l ∧ significant ts ≠ []

/-- What leaves less has read a token. -/
theorem Region.Leaves.advances {r l : Region} (h : r.Leaves l) (hr : r.Settled) (hlt : l.size < r.size) :
    r.Advances l := by
  obtain ⟨ts, reads⟩ := h
  refine ⟨ts, reads, ?_⟩
  rcases reads.eq_nil_or hr with rfl | ⟨t, us, rfl, plain, _⟩
  · rw [size, size, reads.ahead] at hlt
    exact absurd hlt (Nat.lt_irrefl _)
  · rw [significant_cons plain]
    exact List.cons_ne_nil _ _

namespace Grammar

section

variable {ctx : Context} {r : Region}

/-- Statements are read up to the end of their region. -/
theorem allStatements_leaves :
    Returns (allStatements ctx r) fun out => r.Leaves out.2 ∧ out.2.hasNext = false :=
  (allStatements_alike (Survey.plain_sees ctx.source r).twin (Survey.meets_marks nofun)).returns
    fun _ _ ⟨_, ⟨h, done⟩, _⟩ => ⟨h.leaves, done⟩

variable (hr : r.Settled)

include hr

theorem statement_advances : Returns (productions.statement ctx r) fun out => r.Advances out.2 :=
  ((below_twins (.plain ctx.source r.ahead) _ _).statement r.size_lt r.size_lt (Survey.meets_marks nofun)
    (Survey.plain_sees ctx.source r).twin).returns fun out _ ⟨_, h, _⟩ => h.leaves.advances hr out.2.shorter

theorem expression_advances : Returns (productions.expression ctx r) fun out => r.Advances out.2 :=
  ((below_twins (.plain ctx.source r.ahead) _ _).expression r.size_lt r.size_lt (Survey.meets_marks nofun)
    (Survey.plain_sees ctx.source r).twin).returns fun out _ ⟨_, h, _⟩ => h.leaves.advances hr out.2.shorter

theorem unary_advances : Returns (productions.unary ctx r) fun out => r.Advances out.2 :=
  ((below_twins (.plain ctx.source r.ahead) _ _).unary r.size_lt r.size_lt (Survey.meets_marks nofun)
    (Survey.plain_sees ctx.source r).twin).returns fun out _ ⟨_, h, _⟩ => h.leaves.advances hr out.2.shorter

theorem type_advances {s : TypeSetting} {what : String} :
    Yields (productions.type s r what) fun out => r.Advances out.2 :=
  (typeUpTo_alike (S := .plain s.source r.ahead) nofun _ _ r.size_lt r.size_lt what
    (Survey.plain_sees s.source r).twin).yields fun out _ ⟨_, h, _⟩ => h.leaves.advances hr out.2.shorter

end

/-- Whatever the tokens, reading comes to an end, and what it says does not hang on how many steps it is given:
the rules have one solution, and so have loops. Statements are read up to the end of their region. A
statement, an expression, an operand or a type that is read takes a token from the front of its region, and
what it leaves is the rest of the region. What is carved out of a region has fewer tokens than the region. -/
theorem reading_ends :
    (∀ p : Productions, p.Solves ↔ p = productions) ∧ (∀ n, below n = productions.below n) ∧
      (∀ (m : Type → Type) [Monad m] (σ : Type) (step : (r : Region) → σ → m (Option (Step r σ))) f,
        (∀ r s, f r s = oneRound step f r s) ↔ f = fun r s => loop r s fun r' _ => step r') ∧
      (∀ ctx r, Returns (allStatements ctx r) fun out => r.Leaves out.2 ∧ out.2.hasNext = false) ∧
      (∀ source tokens, (Region.ofTokens source tokens).Settled) ∧
      (∀ ctx r, r.Settled →
        Returns (productions.statement ctx r) (fun out => r.Advances out.2) ∧
        Returns (productions.expression ctx r) (fun out => r.Advances out.2) ∧
        Returns (productions.unary ctx r) (fun out => r.Advances out.2) ∧
        ∀ s what, Yields (productions.type s r what) fun out => r.Advances out.2) ∧
      (∀ (r : Region) (o c : Token.Kind) (inner rest : Left r), o ≠ .comment → c ≠ .comment →
        r.carve o c = .ok (inner, rest) →
        r.Leaves rest ∧ inner.Settled ∧ inner.remaining < r.remaining) ∧
      ∀ (r : Region) (k : Token.Kind) (before : Option (Left r)) (rest : Left r), k ≠ .comment →
        r.divide k = .ok (before, rest) →
        r.Leaves rest ∧ ∀ inner ∈ before, inner.Settled ∧ inner.remaining < r.remaining := by
  refine ⟨fun p => ⟨Productions.Solves.eq, fun h => h ▸ productions_solves⟩, below_eq,
    fun m _ σ step f => eq_loop_iff, fun ctx r => allStatements_leaves, fun source tokens => Region.settle_settle _,
    fun ctx r hr => ⟨statement_advances hr, expression_advances hr, unary_advances hr,
      fun s what => type_advances hr⟩, fun r o c inner rest ho hc h => ?_, fun r k before rest hk h => ?_⟩
  · have carves := Region.carve_carves ho hc h
    exact ⟨carves.leaves, carves.settled, carves.fewer⟩
  · obtain ⟨leaves, carves⟩ := Region.divide_carves hk h
    exact ⟨leaves, fun inner hinner => ⟨(carves inner hinner).settled, (carves inner hinner).fewer⟩⟩

/-- A group behind a comment is carved out, and the product that begins with it is read. -/
theorem reading_ends_group :
    let source : Source := ⟨0, "unit.st", "// group\n(1 + /* two */ 2) * 3; 4"⟩
    let r := Region.ofTokens source (source.tokens.toOption.getD [])
    ∃ (e : Expr) (l inner rest : Left r) (reg : Registry),
      (productions.expression { source } r).run.run .empty = (.ok (e, l), reg) ∧
      r.carve .leftParen .rightParen = .ok (inner, rest) ∧ r.remaining = 9 ∧ r.Advances l ∧
      inner.remaining < r.remaining := by
  intro source r
  obtain ⟨_, _, _, _, settled, advances, fewer, _⟩ := reading_ends
  have read : ((productions.expression { source } r).run.run .empty).1.toOption.isSome = true := by
    decide +kernel
  have carved : (r.carve .leftParen .rightParen).toOption.isSome = true := by decide +kernel
  rcases hread : (productions.expression { source } r).run.run .empty with ⟨d | ⟨e, l⟩, reg⟩
  · rw [hread] at read
    cases read
  · rcases hcarve : r.carve .leftParen .rightParen with d | ⟨inner, rest⟩
    · rw [hcarve] at carved
      cases carved
    · exact ⟨e, l, inner, rest, reg, rfl, rfl, by decide +kernel,
        (advances { source } r (settled source _)).2.1 _ _ _ hread,
        (fewer r _ _ inner rest (by decide) (by decide) hcarve).2.2⟩

end Grammar
end OnePass
