import OnePass.Proofs.Grammar.Unit
import OnePass.Proofs.Twin.Unit

/-!
Accepted programs are well laid out. A `break` is in the body of a loop and a `return` in that of a function,
with nothing between them that they could not leave; declarations are in modules. Each of these is checked
where it is read. A parser that goes by marks comes to the same, for whatever statement or expression it has read,
its marks are as they were.
-/

namespace OnePass

open Grammar

theorem Reading.Settled.sited {rd : Reading} {reg : Registry} {source : Source} {site : Site} {n : Node}
    (h : rd.Settled reg source site n) : n.Sited reg site := by
  obtain ⟨n₀, hbuilt, hn⟩ := h
  exact hbuilt.sited.of_mapCalls hn

namespace Grammar

variable {r : Region} {α : Type}

/-- Whatever a parser with marks reads is what is read in the context that they tell, and when it has read it its
marks are as it found them. No struct is being declared there. -/
def Tracked.Keeps (q : Tracked (Step r α)) (p : Marks → Parse (Step r α)) : Prop :=
  ∀ reg reg' σ σ' a l, σ.declaring = none → q.run.run ⟨reg, σ⟩ = (.ok (a, l), ⟨reg', σ'⟩) →
    σ' = σ ∧ ∃ l', (p σ).run.run reg = (.ok (a, l'), reg') ∧ l'.pending = l.pending

theorem Tracked.Keeps.ofAlike {S : Survey} {P : Marks → α → Region → Prop} {q : Tracked (Step r α)}
    {p : Marks → Parse (Step r α)} (h : ∀ σ, σ.declaring = none → S.Alike σ (S.Steps (P σ)) (p σ) q) : Keeps q p := by
  intro reg reg' σ σ' a l hσ hq
  have outcome := h σ hσ reg
  rw [hq] at outcome
  generalize hp : (p σ).run.run reg = x at outcome
  cases outcome with
  | @ok out _ _ hout =>
      obtain ⟨_, l'⟩ := out
      obtain ⟨rfl, _, hl⟩ := hout
      exact ⟨rfl, l', rfl, hl.pending.symm⟩

variable {n : Nat} (hn : r.size < n) (scope : ScopeId)

theorem statement_keeps : Tracked.Keeps ((below n).statement { source := r.source, scope } r hn) fun σ =>
    (below n).statement (σ.context r.source scope) r hn :=
  .ofAlike fun _ hσ => (below_twins _ n n).statement hn hn ⟨fun _ => rfl, rfl, rfl, rfl, hσ⟩
    (Survey.plain_sees r.source r).twin

theorem expression_keeps : Tracked.Keeps ((below n).expression { source := r.source, scope } r hn) fun σ =>
    (below n).expression (σ.context r.source scope) r hn :=
  .ofAlike fun _ hσ => (below_twins _ n n).expression hn hn ⟨fun _ => rfl, rfl, rfl, rfl, hσ⟩
    (Survey.plain_sees r.source r).twin

/-- A parser that begins with no marks ends without any. -/
theorem unit_tracked {reg reg' : Registry} {source : Source} {tokens : List Token} {p : Program}
    (h : reg.readTokens source tokens = (.ok p, reg')) :
    (unit source (.ofTokens source tokens) : Tracked Program).run.run ⟨reg, {}⟩ = (.ok p, ⟨reg', {}⟩) := by
  have outcome := unit_alike (Survey.plain source tokens).start.twin reg
  change (Survey.plain source tokens).Outcome {} _ (reg.readTokens source tokens)
    ((unit source (.ofTokens source tokens) : Tracked Program).run.run ⟨reg, {}⟩) at outcome
  rw [h] at outcome
  generalize (unit source (.ofTokens source tokens) : Tracked Program).run.run ⟨reg, {}⟩ = y at outcome ⊢
  cases outcome with
  | ok heq => rw [heq]

end Grammar

namespace Registry

/-- In a program that is accepted, whatever its tokens, control is transferred only where it can be and
declarations stand only where they may. A parser that keeps account of where it is by marks accepts it too, and
whatever statement or expression it has read, inside of whatever functions and loops and however deep, its marks
are as it found them. -/
theorem readTokens_placed {reg reg' : Registry} {source : Source} {tokens : List Token} {p : Program}
    (h : reg.WellFormed) (hread : reg.readTokens source tokens = (.ok p, reg')) :
    (∀ around site n, Trail (.block p.body) around site n → n.Placed p.body around) ∧
      (unit source (.ofTokens source tokens) : Tracked Program).run.run ⟨reg, {}⟩ = (.ok p, ⟨reg', {}⟩) ∧
      ∀ (n : Nat) (r : Region) (hn : r.size < n) (scope : ScopeId),
        (Tracked.Keeps ((below n).statement { source := r.source, scope } r hn) fun σ =>
          (below n).statement (σ.context r.source scope) r hn) ∧
        Tracked.Keeps ((below n).expression { source := r.source, scope } r hn) fun σ =>
          (below n).expression (σ.context r.source scope) r hn := by
  refine ⟨fun around site n htrail => ?_, unit_tracked hread, fun n r hn scope => ?_⟩
  · obtain ⟨hreach, settled⟩ := readTokens_settled (.ofWellFormed h) rfl (fun _ _ => trivial) hread
    exact htrail.placed (hreach.wellFormed h) ((settled p rfl).imp fun _ _ hn => hn.sited)
  · exact ⟨statement_keeps hn scope, expression_keeps hn scope⟩

/-- A package, an import, a function in a module, loops with a `break` and a `continue`, one of them in a
function without a name, and a function that hands on the arguments it has no names for. A loop that a parser meets
three levels down in a function, with a loop in it and a loop outside of it, leaves the marks of all of them. -/
theorem readTokens_placed_nested :
    let source : Source := ⟨0, "unit.st",
      "package a::b; import a::c; module m::n \x7b struct P \x7b x: i32; \x7d
        extern fn out(n: i32, ...): void;
        fn f(n: i32, ...): i32 \x7b out(n, ...); while (true) \x7b if (n > 1) \x7b break; \x7d
          let g = (k: i32): void -> \x7b for (let i = 0; i < k; i++) \x7b continue; \x7d \x7d; g(2); \x7d
          return n; \x7d \x7d"⟩
    let inner : Source := ⟨1, "inner.st", "while (true) \x7b if (true) \x7b return; \x7d break; \x7d"⟩
    let σ : Marks := { functions := [⟨⟨"f", .ofPrimitive .void, false⟩, 1⟩], loops := 1, depth := 3 }
    (∃ tokens p reg, source.tokens = .ok tokens ∧
      Registry.empty.readTokens source tokens = (.ok p, reg) ∧ p.body.stmts.length = 3 ∧
      (∀ around site n, Trail (.block p.body) around site n → n.Placed p.body around) ∧
      (unit source (.ofTokens source tokens) : Tracked Program).run.run ⟨.empty, {}⟩ = (.ok p, ⟨reg, {}⟩)) ∧
    ∃ tokens reg out, inner.tokens = .ok tokens ∧
      let r := Region.ofTokens inner tokens
      ((below (r.size + 1)).statement { source := inner } r r.size_lt : Tracked (Step r Stmt)).run.run ⟨.empty, σ⟩ =
        (.ok out, ⟨reg, σ⟩) := by
  intro source inner σ
  obtain ⟨p, reg, hread, hlength⟩ :=
    exists_of_read .empty source (by rfl) (fun p _ => p.body.stmts.length) (x := 3) (by decide +kernel)
  obtain ⟨tokens, htokens, hread⟩ := exists_tokens hread
  obtain ⟨hplaced, htracked, hkeeps⟩ := readTokens_placed .empty hread
  refine ⟨⟨tokens, p, reg, htokens, hread, hlength, hplaced, htracked⟩, ?_⟩
  have accepted : (inner.tokens.toOption.map fun tokens =>
      let r := Region.ofTokens inner tokens
      (((below (r.size + 1)).statement { source := inner } r r.size_lt : Tracked (Step r Stmt)).run.run
        ⟨.empty, σ⟩).1.toOption.isSome) = some true := by decide +kernel
  cases htokens : inner.tokens with
  | error d =>
      rw [htokens] at accepted
      cases accepted
  | ok tokens =>
      rw [htokens] at accepted
      replace accepted := Option.some.inj accepted
      dsimp only at accepted
      generalize hout : ((below ((Region.ofTokens inner tokens).size + 1)).statement { source := inner }
        (Region.ofTokens inner tokens) (Region.ofTokens inner tokens).size_lt :
          Tracked (Step (Region.ofTokens inner tokens) Stmt)).run.run ⟨.empty, σ⟩ = outcome at accepted
      obtain ⟨_ | out, ⟨reg, σ'⟩⟩ := outcome
      · cases accepted
      · have kept := (hkeeps _ _ (Region.ofTokens inner tokens).size_lt _).1 _ _ _ _ out.1 out.2 rfl hout
        exact ⟨tokens, reg, out, rfl, hout.trans (by rw [kept.1])⟩

end Registry
end OnePass
