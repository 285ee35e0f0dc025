import OnePass.Proofs.Grammar.Unit

/-!
What reading leaves alone. A registry only grows, whether what is read is accepted or not, and what is local
stays where it is: the scopes of functions and blocks that were there before keep their definitions, and a
statement enters variables only where it stands, into what it opens, and into the modules it names.
-/

namespace OnePass

open Grammar

/-- The tokens that something was read from: those in front of what is left of the region, or all of them if
reading failed. -/
def Region.readBy {α : Type} (r : Region) : Except Diagnostic (Step r α) → List Token
  | .ok s => r.ahead.take (r.size - s.2.size)
  | .error _ => r.ahead

namespace Registry

variable {reg reg' : Registry} {id : ScopeId}

/-- Whatever variables are entered into, it declares things or it is new. -/
theorem Admits.declares_or_le {ts : List Token} {home : Option ScopeId} {old : Nat}
    (h : reg.Admits ts home old id) (wf : reg.WellFormed)
    (hhome : ∀ id, home = some id → reg.declares id = true) : reg.declares id = true ∨ old ≤ id := by
  cases h with
  | home h => exact .inl (hhome id h)
  | opened h => exact .inr h
  | module _ _ _ found =>
      obtain ⟨s, _, hs, hk, _⟩ := wf.modules _ id (mem_of_module? found)
      exact .inl (by simp [declares, kind?, hs, hk, ScopeKind.declares])

/-- Into the scope of a function or a block that was there before, variables are entered only from within. -/
theorem Inner.not_admits (h : reg.Inner id) (hx : reg.Extends reg') (wf : reg'.WellFormed) {ts : List Token}
    {home : Option ScopeId} (hhome : ∀ id, home = some id → reg'.declares id = true) :
    ¬reg'.Admits ts home reg.scopes.length id := by
  intro hadmits
  rcases hadmits.declares_or_le wf hhome with hdeclares | hnew
  · rw [(h.mono hx).2] at hdeclares
    cases hdeclares
  · exact Nat.not_le_of_lt h.1 hnew

theorem WellFormed.declares_global (h : reg.WellFormed) : reg.declares global = true := by
  obtain ⟨s, hs, hk, _⟩ := h.root
  simp [declares, kind?, hs, hk, ScopeKind.declares]

/-- A unit leaves the scopes of functions and blocks that were there before as they are. -/
theorem definitions_eq_of_readTokens (h : reg.WellFormed) (hid : reg.Inner id) {source : Source}
    {tokens : List Token} {x : Except Diagnostic Program}
    (hread : reg.readTokens source tokens = (x, reg')) : reg'.definitions id = reg.definitions id := by
  obtain ⟨hreach, _⟩ := readTokens_settled (.ofWellFormed h) rfl (fun _ _ => trivial) hread
  have wf := hreach.wellFormed h
  refine hreach.definitions_eq h ?_ ?_
  · refine hid.not_admits hreach.grows wf ?_
    rintro _ ⟨⟩
    exact wf.declares_global
  · rintro rfl
    cases h.declares_global.symm.trans hid.2

/-- A statement enters variables nowhere but in its own scope, in those that it opens and in the modules that
are named in its tokens. -/
theorem statement_frame (h : reg.WellFormed) {n : Nat} {ctx : Context} {r : Region} {hn : r.size < n}
    {x : Except Diagnostic (Step r Stmt)} (hscope : reg.Knows ctx.scope)
    (hread : ((below n).statement ctx r hn : Parse (Step r Stmt)).run.run reg = (x, reg')) :
    reg.Extends reg' ∧ reg'.WellFormed ∧
      ∀ id, ¬reg'.Admits (r.readBy x) (some ctx.scope) reg.scopes.length id →
        reg'.variablesIn id = reg.variablesIn id := by
  let rd : Reading :=
    { token := fun _ => True, start := reg, home := some ctx.scope, wellFormed := h, tidy := .all reg,
      tokens := r.ahead, known := fun _ _ => trivial }
  have faces : r.Faces (rd.view reg) r.size :=
    ⟨Nat.le_refl _, (List.take_length (l := r.ahead)).symm ▸ List.suffix_rfl, .refl⟩
  have gives : rd.Gives ((below n).statement ctx r hn) reg _ :=
    (below_sound n).statement ctx ⟨.refl, hscope⟩ (.home rfl) faces
  obtain ⟨hreach, hreads⟩ := gives
  rw [hread] at hreach hreads
  refine ⟨hreach.grows, hreach.wellFormed h, fun id hid => ?_⟩
  cases x with
  | ok s => exact (hreads s rfl).1.past.variablesIn_eq h hid
  | error d =>
      refine hreach.variablesIn_eq h fun hallows => hid ?_
      rwa [Reading.Allows, List.take_length] at hallows

/-- Reading extends a registry and leaves what is local in it alone, whether or not it succeeds: a unit does
not change the scopes of functions and blocks, and a statement enters variables only into its own scope, into
those that it opens and into the modules that it names. -/
theorem readTokens_frame (h : reg.WellFormed) :
    (∀ source tokens x reg', reg.readTokens source tokens = (x, reg') →
      reg.Extends reg' ∧ reg'.WellFormed ∧ ∀ id, reg.Inner id → reg'.definitions id = reg.definitions id) ∧
    ∀ (n : Nat) (ctx : Context) (r : Region) (hn : r.size < n) x reg', reg.Knows ctx.scope →
      ((below n).statement ctx r hn : Parse (Step r Stmt)).run.run reg = (x, reg') → reg.Extends reg' ∧ reg'.WellFormed ∧
        ∀ id, ¬reg'.Admits (r.readBy x) (some ctx.scope) reg.scopes.length id →
          reg'.variablesIn id = reg.variablesIn id := by
  refine ⟨fun source tokens x reg' hread => ?_, fun n ctx r hn x reg' hscope hread => ?_⟩
  · obtain ⟨hreach, _⟩ := readTokens_settled (.ofWellFormed h) rfl (fun _ _ => trivial) hread
    exact ⟨hreach.grows, hreach.wellFormed h, fun id hid => definitions_eq_of_readTokens h hid hread⟩
  · exact statement_frame h hscope hread

/-- A module that is opened again gets another variable, although the file is not accepted; the function that
was in it keeps its own, whether the file is read or only its first statement. -/
theorem readTokens_frame_reopened :
    let first : Source := ⟨0, "first.st",
      "module m \x7b let a: i32 = 1; fn f(): void \x7b let x: i32 = 2; \x7d \x7d"⟩
    let second : Source := ⟨1, "second.st",
      "module m \x7b let b: i32 = 3; fn g(y: i32): void \x7b let x: i32 = ; \x7d \x7d"⟩
    let reg := (Registry.empty.read first).2
    let names (reg : Registry) (id : ScopeId) := (reg.variablesIn id).map (·.symbol.name)
    reg.WellFormed ∧ reg.Inner 2 ∧ names reg 1 = ["a"] ∧ names reg 2 = ["x"] ∧
      ∃ tokens x reg', second.tokens = .ok tokens ∧ reg.readTokens second tokens = (x, reg') ∧
        x.toOption.isNone ∧ names reg' 1 = ["a", "b"] ∧ reg'.definitions 2 = reg.definitions 2 ∧
        let r := Region.ofTokens second tokens
        (((below (r.size + 1)).statement { source := second } r r.size_lt :
          Parse (Step r Stmt)).run.run reg).2.variablesIn 2 = reg.variablesIn 2 := by
  intro first second reg names
  obtain ⟨_, reg₁, hfirst, hfacts⟩ := exists_of_read .empty first (by rfl)
    (fun _ reg => (decide (2 < reg.scopes.length ∧ reg.declares 2 = false ∧ names reg 1 = ["a"] ∧ names reg 2 = ["x"]),
      second.tokens.toOption.map fun tokens =>
        ((reg.readTokens second tokens).1.toOption.isNone, names (reg.readTokens second tokens).2 1)))
    (x := (true, some (true, ["a", "b"]))) (by decide +kernel)
  obtain rfl : reg = reg₁ := congrArg Prod.snd hfirst
  obtain ⟨hscopes, outcome⟩ := Prod.mk.inj hfacts
  obtain ⟨knows, silent, hmodule, hfunction⟩ := of_decide_eq_true hscopes
  have inner : reg.Inner 2 := ⟨knows, silent⟩
  have wf : reg.WellFormed :=
    (read_settled (.ofWellFormed .empty) rfl (fun _ _ _ _ => trivial) hfirst).1.wellFormed .empty
  refine ⟨wf, inner, hmodule, hfunction, ?_⟩
  cases htokens : second.tokens with
  | error d =>
      rw [htokens] at outcome
      cases outcome
  | ok tokens =>
      rw [htokens] at outcome
      obtain ⟨hfails, hnames⟩ := Prod.mk.inj (Option.some.inj outcome)
      obtain ⟨units, statements⟩ := readTokens_frame wf
      refine ⟨tokens, _, _, rfl, rfl, hfails, hnames, (units second tokens _ _ rfl).2.2 2 inner, ?_⟩
      obtain ⟨hx, wf', same⟩ := statements _ { source := second } (.ofTokens second tokens)
        (Region.size_lt _) _ _ wf.knows_global rfl
      refine same 2 (inner.not_admits hx wf' ?_)
      rintro _ ⟨⟩
      exact wf'.declares_global

end Registry
end OnePass
