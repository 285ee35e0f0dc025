import OnePass.Proofs.Token.Extent
import OnePass.Proofs.Token.Words
import OnePass.Proofs.Twin.Unit

/-!
Where failures point. A file that is rejected is rejected with a diagnostic that points into it, at spans that
lie within its text, whatever the registry was. There is one exception: the check of a variable's declaration
gives no place to the failure to find a type for an element of an array.
-/

namespace OnePass

open Grammar

/-- A survey of the spans within a text. -/
def Survey.ofSource {source : Source} {tokens : List Token} (h : source.tokens = .ok tokens) : Survey where
  source
  tokens
  span := (·.Within source)
  locates := True
  first := .ofLength (Nat.zero_le _)
  last := .ofLength (Nat.le_refl _)
  ofToken := Source.tokens_within h
  merge := .merge
  opening := .opening

/-- The tokens of a text for built-in types are the names of such. -/
theorem Survey.Locates.pointsInto {source : Source} {tokens : List Token} (h : source.tokens = .ok tokens)
    {d : Diagnostic} (hd : (ofSource h).Locates d) : d.PointsInto source (·.Within source) := by
  rcases hd with hd | ⟨t, ⟨ht, hk⟩, hnone, _⟩
  · exact hd
  · exact absurd hnone (Source.tokens_primitive h t ht hk)

theorem Grammar.Misdeclares.references {source : Source} {tokens : List Token} {reg : Registry} {d : Diagnostic}
    (h : Misdeclares source tokens reg d) : d.references = [] := by
  obtain ⟨_, _, _, _, _, declared, _, _, value, _, _, _, _, _, _, _, _, _, _, hcoerces⟩ := h
  exact (Typing.coerces_fails declared value d hcoerces).1

theorem Survey.Outcome.excuses {S : Survey} {σ : Marks} {α β : Type} {A : α → β → Prop} {d : Diagnostic}
    {reg : Registry} {x : Except Diagnostic α × Registry} {y : Except Diagnostic β × Parser} (h : S.Outcome σ A x y)
    (hx : x = (.error d, reg)) : S.Excuses reg d := by
  cases h with
  | ok _ => cases hx
  | error h =>
      cases hx
      exact h

namespace Registry

/-- A file is rejected if something is computed of the diagnostic. -/
theorem exists_of_fault {α : Type} (reg : Registry) (source : Source) {cs : List Char}
    (htext : source.text = .ofList cs) (f : Diagnostic → α) {x : α}
    (h : ((Token.Scan.tokens source 0 0 cs).toOption.bind fun tokens =>
      match (reg.readTokens source tokens).1 with
      | .error d => some (f d)
      | .ok _ => none) = some x) :
    ∃ d reg', reg.read source = (.error d, reg') ∧ f d = x := by
  obtain ⟨tokens, htokens, h⟩ := Option.bind_eq_some_iff.mp h
  rw [read, Source.tokens_ofList htext, toOption_eq_some.mp htokens]
  dsimp only
  generalize reg.readTokens source tokens = out at h
  obtain ⟨d | p, reg'⟩ := out
  · exact ⟨d, reg', rfl, Option.some.inj h⟩
  · cases h

/-- A file that is rejected is rejected with a place in it, or because of a declaration whose check has not
said where it failed. -/
theorem read_located {reg reg' : Registry} {source : Source} {d : Diagnostic}
    (h : reg.read source = (.error d, reg')) :
    d.PointsInto source (·.Within source) ∨
      d.references = [] ∧ ∃ tokens, source.tokens = .ok tokens ∧ Misdeclares source tokens reg' d := by
  unfold read at h
  cases htokens : source.tokens with
  | error d' =>
      rw [htokens] at h
      cases h
      exact .inl (Source.tokens_fails d htokens)
  | ok tokens =>
      rw [htokens] at h
      have alike := unit_alike (Survey.ofSource htokens).start.twin reg
      rcases alike.excuses h trivial with hd | hd
      · exact .inl (hd.pointsInto htokens)
      · exact .inr ⟨hd.references, tokens, rfl, hd⟩

/-- An element that has no type: in a declaration nothing is said of its place, in an assignment the value is
pointed at. -/
theorem read_located_element :
    let declares : Source := ⟨0, "unit.st", "fn main(): void \x7b let a: i32[] = [1, f()]; \x7d"⟩
    let assigns : Source := ⟨0, "unit.st", "fn main(): void \x7b let a = [1]; a = [1, f()]; \x7d"⟩
    (∃ d reg tokens, Registry.empty.read declares = (.error d, reg) ∧ d.references = [] ∧
      declares.tokens = .ok tokens ∧ Misdeclares declares tokens reg d) ∧
    ∃ d reg, Registry.empty.read assigns = (.error d, reg) ∧ d.references.map (·.span) = [⟨35, 43, 0⟩] ∧
      d.PointsInto assigns (·.Within assigns) := by
  intro declares assigns
  constructor
  · obtain ⟨d, reg, hread, hbare⟩ :=
      exists_of_fault .empty declares (by rfl) (·.references.isEmpty) (x := true) (by decide +kernel)
    rcases read_located hread with ⟨hplaces, _⟩ | ⟨hbare, tokens, htokens, hd⟩
    · exact absurd (List.isEmpty_iff.mp hbare) hplaces
    · exact ⟨d, reg, tokens, hread, hbare, htokens, hd⟩
  · obtain ⟨d, reg, hread, hspans⟩ :=
      exists_of_fault .empty assigns (by rfl) (·.references.map (·.span)) (x := [⟨35, 43, 0⟩]) (by decide +kernel)
    rcases read_located hread with hplaces | ⟨hbare, _⟩
    · exact ⟨d, reg, hread, hspans, hplaces⟩
    · rw [hbare] at hspans
      cases hspans

end Registry
end OnePass
