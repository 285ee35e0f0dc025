import OnePass.Proofs.Tree.Placement

/-!
Ways through a program. Whatever is tested may turn out either way, so a way is a choice of branches and of
the number of rounds; `break`, `continue` and `return` end it early. Functions that are declared or written
on the way are not entered.

`Stmt.returns` looks for a `return` and does not ask what stands in front of it. That is enough: a way that
misses it has been ended early, and since no `break` or `continue` leads out of a function, only by another
`return`.
-/

namespace OnePass

namespace Stmt

/-- A statement that ends the way it is on. -/
def transfers : Stmt → Bool
  | .return .. | .break _ | .continue _ => true
  | _ => false

/-- A statement that ways pass in one step. -/
def isPlain : Stmt → Bool
  | .package .. | .imports .. | .module .. | .function _ | .struct _ | .enum .. | .variable _ | .expr _ => true
  | _ => false

/-- What is repeated by a loop that has begun. -/
def repeats? : Stmt → Option Block
  | .while _ body _ | .for none _ _ body _ _ => some body
  | _ => none

/-- A loop without a condition. -/
def isEndless : Stmt → Bool
  | .for _ none .. => true
  | _ => false

end Stmt

/-- The statement at which a way ends, and where that stands; none if the way goes through to the end. -/
abbrev Outcome := Option (Site × Stmt)

/-- Is there another round behind one that ends like this? -/
def Outcome.goesOn : Outcome → Bool
  | none | some (_, .continue _) => true
  | _ => false

/-- There is a way through a part, and it ends like this. -/
inductive Flow : Site → Node → Outcome → Prop where
  | done {site : Site} {scope : ScopeId} {span : Span} : Flow site (.block ⟨[], scope, span⟩) none
  | next {site : Site} {s : Stmt} {ss : List Stmt} {scope : ScopeId} {span : Span} {o : Outcome}
      (first : Flow { site with scope } (.stmt s) none) (rest : Flow site (.block ⟨ss, scope, span⟩) o) :
      Flow site (.block ⟨s :: ss, scope, span⟩) o
  | stop {site : Site} {s : Stmt} {ss : List Stmt} {scope : ScopeId} {span : Span} {stop : Site × Stmt}
      (first : Flow { site with scope } (.stmt s) (some stop)) :
      Flow site (.block ⟨s :: ss, scope, span⟩) (some stop)
  | plain {site : Site} {s : Stmt} (h : s.isPlain = true) : Flow site (.stmt s) none
  | transfer {site : Site} {s : Stmt} (h : s.transfers = true) : Flow site (.stmt s) (some (site, s))
  | block {site : Site} {b : Block} {o : Outcome} (inside : Flow site (.block b) o) :
      Flow site (.stmt (.block b)) o
  | yes {site : Site} {e : Expr} {yes : Block} {no : Option Block} {span : Span} {o : Outcome}
      (branch : Flow site (.block yes) o) : Flow site (.stmt (.cond e yes no span)) o
  | no {site : Site} {e : Expr} {yes no : Block} {span : Span} {o : Outcome}
      (branch : Flow site (.block no) o) : Flow site (.stmt (.cond e yes (some no) span)) o
  | neither {site : Site} {e : Expr} {yes : Block} {span : Span} :
      Flow site (.stmt (.cond e yes none span)) none
  | begin {site : Site} {s : Stmt} {test step : Option Expr} {body : Block} {scope : ScopeId} {span : Span}
      {o : Outcome} (first : Flow { site with scope } (.stmt s) none)
      (rest : Flow site (.stmt (.for none test step body scope span)) o) :
      Flow site (.stmt (.for (some s) test step body scope span)) o
  | beginStop {site : Site} {s : Stmt} {test step : Option Expr} {body : Block} {scope : ScopeId}
      {span : Span} {stop : Site × Stmt} (first : Flow { site with scope } (.stmt s) (some stop)) :
      Flow site (.stmt (.for (some s) test step body scope span)) (some stop)
  | finish {site : Site} {s : Stmt} {body : Block} (loop : s.repeats? = some body)
      (h : s.isEndless = false) : Flow site (.stmt s) none
  | round {site inner : Site} {s : Stmt} {body : Block} {o o' : Outcome} (loop : s.repeats? = some body)
      (member : (inner, .block body) ∈ (Node.stmt s).children site) (one : Flow inner (.block body) o)
      (goesOn : o.goesOn = true) (again : Flow site (.stmt s) o') : Flow site (.stmt s) o'
  | leave {site inner at_ : Site} {s : Stmt} {body : Block} {span : Span} (loop : s.repeats? = some body)
      (member : (inner, .block body) ∈ (Node.stmt s).children site)
      (one : Flow inner (.block body) (some (at_, .break span))) : Flow site (.stmt s) none
  | return {site inner at_ : Site} {s : Stmt} {body : Block} {value : Option Expr} {span : Span}
      (loop : s.repeats? = some body) (member : (inner, .block body) ∈ (Node.stmt s).children site)
      (one : Flow inner (.block body) (some (at_, .return value span))) :
      Flow site (.stmt s) (some (at_, .return value span))

/-- Does the part return as far as `Stmt.returns` can see? -/
def Node.returns : Node → Bool
  | .block b => b.returns
  | .stmt s => s.returns
  | .expr _ => false

/-! ### Where ways end -/

/-- What a loop repeats is in the same function as the loop. -/
theorem Stmt.routine_eq_of_repeats? {s : Stmt} {body : Block} {site inner : Site} {n : Node}
    (h : s.repeats? = some body) (hm : (inner, n) ∈ (Node.stmt s).children site) :
    inner.routine = site.routine := by
  rcases Node.child_cases hm with ⟨f, hf, _⟩ | ⟨_, hroutine, _⟩
  · cases s <;> simp only [Stmt.repeats?, Node.routine?, reduceCtorEq] at h hf
  · exact hroutine

theorem Stmt.returns_of_repeats? {s : Stmt} {body : Block} (h : s.repeats? = some body) :
    s.returns = false := by
  cases s <;> simp_all [Stmt.repeats?, Stmt.returns]

namespace Flow

variable {site : Site} {n : Node}

/-- A way that ends early does so at a statement that it passes: in the same function, and unless that is a
`return`, in the same loop. -/
theorem ends {at_ : Site} {s : Stmt} (h : Flow site n (some (at_, s))) :
    Occurs site n at_ (.stmt s) ∧ s.transfers = true ∧ at_.routine = site.routine ∧
      (at_.inLoop = site.inLoop ∨ ∃ value span, s = .return value span) := by
  generalize ho : some (at_, s) = o at h
  induction h with
  | done | plain | neither | finish | leave => cases ho
  | next _ _ _ ih =>
      obtain ⟨hoccurs, hrest⟩ := ih ho
      refine ⟨?_, hrest⟩
      cases hoccurs with
      | under member inside => exact .under (List.mem_cons_of_mem _ member) inside
  | stop _ ih | block _ ih =>
      obtain ⟨hoccurs, hrest⟩ := ih ho
      exact ⟨.under List.mem_cons_self hoccurs, hrest⟩
  | transfer h =>
      cases ho
      exact ⟨.here, h, rfl, .inl rfl⟩
  | yes _ ih =>
      obtain ⟨hoccurs, hrest⟩ := ih ho
      exact ⟨.under (List.mem_cons_of_mem _ List.mem_cons_self) hoccurs, hrest⟩
  | no _ ih =>
      obtain ⟨hoccurs, hrest⟩ := ih ho
      exact ⟨.under (List.mem_append_right _ List.mem_cons_self) hoccurs, hrest⟩
  | begin _ _ _ ih =>
      obtain ⟨hoccurs, htransfers, hrest⟩ := ih ho
      refine ⟨?_, htransfers, hrest⟩
      -- The loop that has begun is no part of the statement, but what is below it is.
      cases hoccurs with
      | here => cases htransfers
      | under member inside => exact .under (List.mem_cons_of_mem _ member) inside
  | beginStop _ ih =>
      obtain ⟨hoccurs, hrest⟩ := ih ho
      exact ⟨.under List.mem_cons_self hoccurs, hrest⟩
  | round _ _ _ _ _ _ ih => exact ih ho
  | «return» loop member _ ih =>
      obtain ⟨hoccurs, htransfers, hroutine, _⟩ := ih ho
      cases ho
      have houter := Stmt.routine_eq_of_repeats? loop member
      exact ⟨.under member hoccurs, htransfers, hroutine.trans houter, .inr ⟨_, _, rfl⟩⟩

/-- No way gets to the end of a part that returns. -/
theorem not_through {o : Outcome} (h : Flow site n o) (hr : n.returns = true) : o ≠ none := by
  induction h with
  | done => cases hr
  | next _ _ first rest =>
      rcases Bool.or_eq_true_iff.mp hr with hs | hss
      · exact absurd rfl (first hs)
      · exact rest hss
  | stop | transfer | beginStop | «return» => exact nofun
  | @plain _ s h => cases s <;> cases h <;> cases hr
  | neither | begin => cases hr
  | block _ ih => exact ih hr
  | yes _ ih =>
      rename_i no _ _ _
      cases no with
      | none => cases hr
      | some no => exact ih (Bool.and_eq_true_iff.mp hr).1
  | no _ ih => exact ih (Bool.and_eq_true_iff.mp hr).2
  | finish loop | round loop | leave loop =>
      rw [Node.returns, Stmt.returns_of_repeats? loop] at hr
      cases hr

end Flow
end OnePass
