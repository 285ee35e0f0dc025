import OnePass.Proofs.Program.Placement
import OnePass.Proofs.Program.Recheck
import OnePass.Proofs.Tree.Flow

/-!
Functions with a result return it. The check that is made at the end of a body looks for a `return` that
stands in the body, in whatever company; what makes it sound is that a way out of the body that misses this
`return` can only be another one, and that each of them has been checked against the result.
-/

namespace OnePass

open Typing

/-- In a tree whose parts may stand where they do, a way through the body of a function with a result ends
at a `return` of the function. -/
theorem Routine.Encloses.flow_ends {reg : Registry} {f : Routine} {b : Block} {site : Site} {o : Outcome}
    (h : f.Encloses reg) (hb : b ∈ f.body) (hresult : f.result.isVoid = false)
    (hall : Every (Node.Sited reg) (site.inside f) (.block b)) (hflow : Flow (site.inside f) (.block b) o) :
    ∃ at_ value span, o = some (at_, .return value span) ∧
      Occurs (site.inside f) (.block b) at_ (.stmt (.return value span)) ∧
      at_.routine = (site.inside f).routine := by
  have stops : o ≠ none := hflow.not_through ((h b hb).2 hresult)
  obtain ⟨⟨at_, s⟩, rfl⟩ := Option.ne_none_iff_exists'.mp stops
  obtain ⟨hoccurs, htransfers, hroutine, hloop⟩ := hflow.ends
  have hsited := hall _ _ hoccurs
  -- Outside of loops there is no `break` and no `continue`, and the body of a function is outside.
  have outside : (site.inside f).inLoop = false := rfl
  cases s <;> cases htransfers
  case «return» value span => exact ⟨at_, value, span, rfl, hoccurs, hroutine⟩
  case «break» | «continue» =>
    rcases hloop with hloop | ⟨_, _, heq⟩
    · rw [Node.Sited, hloop, outside] at hsited
      cases hsited
    · cases heq

namespace Registry

/-- In a program that is accepted, whatever its tokens, no way through the body of a function with a result
falls off the end: it ends at a `return` of a value that goes into the result. -/
theorem readTokens_returns {reg reg' : Registry} {source : Source} {tokens : List Token} {p : Program}
    (h : reg.WellFormed) (hread : reg.readTokens source tokens = (.ok p, reg')) {site : Site} {n : Node}
    {f : Routine} {b : Block} {o : Outcome} (hn : Occurs {} (.block p.body) site n)
    (hf : n.routine? = some f) (hb : b ∈ f.body) (hresult : f.result.isVoid = false)
    (hflow : Flow (site.inside f) (.block b) o) :
    ∃ at_ value span, o = some (at_, .return (some value) span) ∧
      Occurs (site.inside f) (.block b) at_ (.stmt (.return (some value) span)) ∧
      coerces reg' at_.scope f.result value = .ok true := by
  obtain ⟨_, settled⟩ := readTokens_settled (.ofWellFormed h) rfl (fun _ _ => trivial) hread
  have hall := settled p rfl
  have hbody : Occurs site n (site.inside f) (.block b) := n.occurs_body hf hb
  have encloses : f.Encloses reg' := (hall site n hn).sited.encloses hf
  obtain ⟨at_, value, span, rfl, hoccurs, hroutine⟩ :=
    encloses.flow_ends hb hresult ((hall.part (hn.trans hbody)).imp fun _ _ hn => hn.sited) hflow
  obtain ⟨g, hg, returns⟩ := (hall _ _ (hn.trans (hbody.trans hoccurs))).checks
  cases hroutine.symm.trans hg
  cases value with
  | none => cases hresult.symm.trans returns
  | some value => exact ⟨at_, value, span, rfl, hoccurs, returns.2⟩

/-- Is there one function, and in it a loop and a `return` of a value? -/
def returnsBehindLoop (p : Program) : Bool :=
  match p.body with
  | ⟨[.function f], _, _⟩ => match f.body with
    | some ⟨[.while .., .return ..], _, _⟩ => !f.result.isVoid
    | _ => false
  | _ => false

/-- A loop that may be passed, left and returned from, in front of the last `return`. -/
theorem readTokens_returns_loop :
    let source : Source := ⟨0, "unit.st",
      "fn f(n: i32): i64 \x7b while (n > 0) \x7b let g = (k: i32): i32 -> \x7b return k; \x7d;
          if (g(n) > 1) \x7b break; \x7d return 2; \x7d return n; \x7d"⟩
    ∃ tokens p reg site f b, source.tokens = .ok tokens ∧
      Registry.empty.readTokens source tokens = (.ok p, reg) ∧
      Occurs {} (.block p.body) site (.stmt (.function f)) ∧ b ∈ f.body ∧
      (∃ o, Flow (site.inside f) (.block b) o) ∧
      ∀ o, Flow (site.inside f) (.block b) o → ∃ at_ value span,
        o = some (at_, .return (some value) span) ∧ coerces reg at_.scope f.result value = .ok true := by
  intro source
  obtain ⟨p, reg, hread, hshape⟩ :=
    exists_of_read .empty source (by rfl) (fun p _ => returnsBehindLoop p) (x := true) (by decide +kernel)
  obtain ⟨tokens, htokens, hread⟩ := exists_tokens hread
  unfold returnsBehindLoop at hshape
  split at hshape
  next f scope _ hbody =>
    split at hshape
    next hb =>
      have hn : Occurs {} (.block p.body) { scope } (.stmt (.function f)) :=
        hbody ▸ .under List.mem_cons_self .here
      refine ⟨tokens, p, reg, _, f, _, htokens, hread, hn, hb, ?_, fun o hflow => ?_⟩
      · exact ⟨some _, .next (.finish rfl rfl) (.stop (.transfer rfl))⟩
      · obtain ⟨at_, value, span, ho, _, hcoerces⟩ :=
          readTokens_returns .empty hread hn rfl hb (by simpa using hshape) hflow
        exact ⟨at_, value, span, ho, hcoerces⟩
    · cases hshape
  · cases hshape

end Registry
end OnePass
