import OnePass.Proofs.Layout.Tokens
import OnePass.Proofs.Program.Location

/-!
The order in which calls are settled. A unit is read to its end, and then a walk over its calls gives those that
were left open their targets. The walk comes to each call once, in the order in which the calls end. So the call
that a unit is rejected for is the first to end of those that no target is found for, and where there is one for
each, the unit is accepted with these targets and otherwise as it was read.
-/

namespace OnePass

/-- The calls of a tree, each once. -/
def Block.callNodes (b : Block) : List Call := (Part.block b).postorder.filterMap Part.call?

theorem Block.callNodes_eq (b : Block) : b.callNodes = b.calls := ((Part.block b).calls_postorder).symm

namespace Registry

variable {reg reg' : Registry} {source : Source} {b : Block} {p : Program}

/-! ### Units that were read to their ends -/

/-- Reads a file to its end; the calls that were left open have no targets yet. -/
def draft (reg : Registry) (source : Source) : Except Diagnostic Block × Registry :=
  match source.tokens with
  | .ok tokens => ((·.2) <$> Grammar.draft source (Region.ofTokens source tokens)).run.run reg
  | .error d => (.error d, reg)

theorem exists_of_draft (h : reg.draft source = (.ok b, reg')) :
    ∃ tokens package, source.tokens = .ok tokens ∧
      (Grammar.draft source (Region.ofTokens source tokens)).run.run reg = (.ok (package, b), reg') := by
  unfold draft at h
  split at h
  · rename_i tokens htokens
    rw [← bind_pure_comp, Grammar.run_bind] at h
    split at h
    · rename_i out reg₁ hout
      obtain ⟨package, b₁⟩ := out
      cases h
      exact ⟨tokens, package, htokens, hout⟩
    · cases h
  · cases h

theorem exists_of_drafted {α : Type} (reg : Registry) (source : Source) {cs : List Char}
    (htext : source.text = .ofList cs) (f : Block → α) {x : α}
    (h : ((Token.Scan.tokens source 0 0 cs).toOption.bind fun tokens =>
      (((·.2) <$> Grammar.draft source (Region.ofTokens source tokens)).run.run reg).1.toOption.map f) = some x) :
    ∃ b reg', reg.draft source = (.ok b, reg') ∧ f b = x := by
  obtain ⟨tokens, htokens, h⟩ := Option.bind_eq_some_iff.mp h
  rw [draft, Source.tokens_ofList htext, toOption_eq_some.mp htokens]
  dsimp only
  generalize ((·.2) <$> Grammar.draft source (Region.ofTokens source tokens)).run.run reg = out at h
  obtain ⟨d | b, reg'⟩ := out
  · cases h
  · exact ⟨b, reg', rfl, Option.some.inj h⟩

/-- What is accepted or rejected at its end was read up to there. -/
theorem read_eq (h : reg.draft source = (.ok b, reg')) :
    ∃ package, reg.read source =
      ((Grammar.settle reg' source b).map fun body => ⟨source.path, package, body⟩, reg') := by
  obtain ⟨tokens, package, htokens, hdraft⟩ := exists_of_draft h
  refine ⟨package.map (·.1), ?_⟩
  rw [read, htokens]
  dsimp only
  rw [readTokens, Grammar.unit_eq, Grammar.run_bind, hdraft]
  change (liftM (Grammar.settle reg' source b) >>= fun body => pure ⟨source.path, package.map (·.1), body⟩ :
    Grammar.Parse Program).run.run reg' = _
  cases Grammar.settle reg' source b <;> rfl

theorem exists_draft (h : reg.read source = (.ok p, reg')) :
    ∃ b, reg.draft source = (.ok b, reg') ∧ Grammar.settle reg' source b = .ok p.body := by
  obtain ⟨tokens, htokens, hunit⟩ := exists_tokens h
  obtain ⟨package, b, hdraft, hsettle⟩ := Grammar.exists_draft hunit
  refine ⟨b, ?_, hsettle⟩
  rw [draft, htokens]
  dsimp only
  rw [← bind_pure_comp, Grammar.run_bind, hdraft]
  rfl

theorem laid_of_draft (h : reg.draft source = (.ok b, reg')) :
    (Part.block b).Laid source ∧ (Part.block b).Closed := by
  obtain ⟨tokens, package, htokens, hdraft⟩ := exists_of_draft h
  obtain ⟨l, hlays, _, hspan⟩ := Grammar.draft_lays reg (package, b) reg' hdraft
  have orderly := Region.Orderly.ofTokens htokens
  exact ⟨hlays.whole orderly hspan, .of_none rfl (hlays.closed orderly)⟩

/-! ### Whole units -/

/-- The calls of a unit that is accepted are visited once each, as they end, and the unit differs from what was
read only in targets of calls that had none. A unit that was read to its end is accepted if there is a target for
each call, and else it is rejected for the call that ends first of those that there is none for. -/
theorem read_walks_calls (reg : Registry) (source : Source) :
    (∀ p reg', reg.read source = (.ok p, reg') →
      (p.body.mapCalls record).run [] = (p.body, p.body.callNodes) ∧
      p.body.callNodes.Pairwise (·.span.stop < ·.span.stop) ∧
      ∃ b aim, reg.draft source = (.ok b, reg') ∧ p.body = b.retarget aim ∧
        ∀ c, c.target ≠ .deferred → aim c = c.target) ∧
    ∀ b reg', reg.draft source = (.ok b, reg') →
      (∀ c ∈ b.callNodes, ¬ reg'.Misses c) ∧ (∃ p, reg.read source = (.ok p, reg')) ∨
      ∃ c ∈ b.callNodes, reg'.Misses c ∧
        (∀ c' ∈ b.callNodes, reg'.Misses c' → c' = c ∨ c.span.stop < c'.span.stop) ∧
        ∃ d, reg.read source = (.error d, reg') ∧
          reg'.settleCall source (c.prepared reg'.finalTarget) = .error d ∧ d.PointsInto source (· = c.span) := by
  constructor
  · intro p reg' hread
    obtain ⟨b, hdraft, hsettle⟩ := exists_draft hread
    obtain ⟨laid, closed⟩ := laid_of_draft hdraft
    have replaces := Part.replaces_block hsettle
    have retargets := reg'.retargets source
    have order := (laid.of_replaces retargets replaces).calls_inOrder (closed.of_replaces retargets replaces)
    rw [Block.callNodes_eq]
    refine ⟨p.body.mapCalls_record [], order.ordered, b, reg'.finalTarget, hdraft, (settle_eq_ok hsettle).2, ?_⟩
    exact fun c hc => if_neg hc
  · intro b reg' hdraft
    obtain ⟨package, hread⟩ := read_eq hdraft
    rw [Block.callNodes_eq]
    cases hsettle : Grammar.settle reg' source b with
    | ok body => exact .inl ⟨(settle_eq_ok hsettle).1, _, by rw [hread, hsettle]; rfl⟩
    | error d =>
        obtain ⟨laid, closed⟩ := laid_of_draft hdraft
        have order : b.calls.Pairwise (·.span.stop < ·.span.stop) := (laid.calls_inOrder closed).ordered
        obtain ⟨front, c, rest, hcalls, hfront, hc⟩ := settle_eq_error hsettle
        rw [hcalls] at order ⊢
        obtain ⟨_, behind, _⟩ := List.pairwise_append.mp order
        refine .inr ⟨c, by simp, misses_of_error hc, fun c' hc' misses => ?_, d, by rw [hread, hsettle]; rfl, hc,
          pointsInto_of_error hc⟩
        rcases List.mem_append.mp hc' with hc' | hc'
        · exact absurd misses (hfront c' hc')
        · rcases List.mem_cons.mp hc' with rfl | hc'
          · exact .inl rfl
          · exact .inr ((List.pairwise_cons.mp behind).1 c' hc')

/-- A call in an argument of another one, both of functions that are declared further down, ends before this; where
none of three calls has a target, the unit is rejected for the inner one, though the outer one begins first. -/
theorem read_walks_calls_inner :
    let accepted : Source := ⟨0, "unit.st", "fn main(): void \x7b run((): void -> \x7b late(); \x7d); late(); \x7d
      fn run(f: () -> void): void \x7b \x7d fn late(): void \x7b \x7d"⟩
    let rejected : Source := ⟨0, "unit.st", "fn main(): void \x7b run((): void -> \x7b lost(); \x7d); gone(); \x7d"⟩
    (∃ p reg, Registry.empty.read accepted = (.ok p, reg) ∧ p.body.calls.map (·.name) = ["late", "run", "late"] ∧
      (p.body.mapCalls record).run [] = (p.body, p.body.callNodes) ∧
      p.body.callNodes.Pairwise (·.span.stop < ·.span.stop)) ∧
    ∃ b reg c d, Registry.empty.draft rejected = (.ok b, reg) ∧
      b.calls.map (·.target) = [.deferred, .deferred, .deferred] ∧
      Registry.empty.read rejected = (.error d, reg) ∧ c.span = ⟨36, 42, 0⟩ ∧ reg.Misses c ∧
      ∀ c' ∈ b.callNodes, reg.Misses c' → c' = c ∨ c.span.stop < c'.span.stop := by
  intro accepted rejected
  constructor
  · obtain ⟨p, reg, hread, hnames⟩ := exists_of_read .empty accepted (by rfl) (fun p _ => p.body.calls.map (·.name))
      (x := ["late", "run", "late"]) (by decide +kernel)
    obtain ⟨visits, order, _⟩ := (read_walks_calls .empty accepted).1 p reg hread
    exact ⟨p, reg, hread, hnames, visits, order⟩
  · obtain ⟨b, reg, hdraft, htargets⟩ := exists_of_drafted .empty rejected (by rfl) (fun b => b.calls.map (·.target))
      (x := [.deferred, .deferred, .deferred]) (by decide +kernel)
    obtain ⟨d, _, hread, hspans⟩ := exists_of_fault .empty rejected (by rfl) (fun d => d.references.map (·.span))
      (x := [⟨36, 42, 0⟩]) (by decide +kernel)
    rcases (read_walks_calls .empty rejected).2 b reg hdraft with ⟨_, p, hok⟩ | ⟨c, _, misses, first, hfault⟩
    · cases hok.symm.trans hread
    · obtain ⟨d', hread', _, points⟩ := hfault
      obtain rfl := Except.error.inj (Prod.mk.inj (hread'.symm.trans hread)).1
      obtain ⟨ref, href, hspan⟩ := List.map_eq_singleton_iff.mp hspans
      have place := (points.2 ref (href ▸ List.mem_singleton_self ref)).2
      exact ⟨b, reg, c, _, hdraft, htargets, hread', place.symm.trans hspan, misses, first⟩

end Registry
end OnePass
