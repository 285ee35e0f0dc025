import OnePass.Proofs.Registry.Operations
import OnePass.Proofs.Registry.Stability

/-!
Lexical scoping. A variable is looked for in a scope, then in the scope around it, and so on. A new one is
found under either of its names, from its own scope and from those inside it where no variable of the same
name comes first; whatever else is looked for is found as before. Functions and structs take no notice of it.
-/

namespace OnePass
namespace Registry

variable {r r' : Registry} {home id : ScopeId} {v : Variable} {name : String}

/-! ### From one scope to the next -/

/-- Going outwards from a scope, parent by parent, one comes to `home`, and none of the scopes on the way there
has a variable that answers to `name`. -/
inductive Unhidden (r : Registry) (name : String) (home : ScopeId) : ScopeId → Prop where
  | here : Unhidden r name home home
  | outwards {id parent : ScopeId} {s : Scope} (hs : r.scope? id = some s) (hparent : s.parent? = some parent)
      (free : ∀ w, .variable w ∈ r.definitions id → ¬w.symbol.answersTo name)
      (around : Unhidden r name home parent) : Unhidden r name home id

theorem variableIn?_eq_none_iff :
    r.variableIn? id name = none ↔ ∀ w, .variable w ∈ r.definitions id → ¬w.symbol.answersTo name := by
  rw [← Option.not_isSome_iff_eq_none, variableIn?_isSome_iff]
  simp only [not_exists, not_and]

theorem resolveVariable?_eq_findSome? (r : Registry) (id : ScopeId) (name : String) :
    r.resolveVariable? id name = (r.ancestors id).findSome? fun a => (r.variableIn? a name).map (a, ·) := rfl

theorem resolveVariable?_of_unknown (unknown : r.scope? id = none) (name : String) :
    r.resolveVariable? id name = none := by
  simp only [resolveVariable?, ancestors, unknown, List.findSome?_nil]

/-- A variable is looked for in the scope itself, then in the scope around. -/
theorem WellFormed.resolveVariable?_step (h : r.WellFormed) {s : Scope} (hs : r.scope? id = some s)
    (name : String) : r.resolveVariable? id name =
      ((r.variableIn? id name).map (id, ·)).or (s.parent?.bind (r.resolveVariable? · name)) := by
  obtain ⟨root, outwards⟩ := h.outwards hs
  cases hparent : s.parent? with
  | none =>
      obtain rfl := root.mp hparent
      rw [resolveVariable?_eq_findSome?, h.ancestors_global, List.findSome?_cons, List.findSome?_nil]
      cases r.variableIn? global name <;> rfl
  | some parent =>
      rw [resolveVariable?_eq_findSome?, (outwards parent hparent).2, List.findSome?_cons]
      cases r.variableIn? id name <;> rfl

/-! ### A variable that is entered -/

/-- A variable can be entered if and only if it shares no name with one of the same scope. -/
theorem defineVariable_isOk_iff : (∃ r', r.defineVariable id v = (.ok (), r')) ↔
    ∀ w, .variable w ∈ r.definitions id → ∀ name, v.symbol.answersTo name → ¬w.symbol.answersTo name := by
  constructor
  · rintro ⟨r', h⟩ w hw name hv hn
    exact (defineVariable_ok h).1 _ hw name ⟨hn, hv⟩
  · intro apart
    have free {name : String} (hn : v.symbol.answersTo name) :
        ¬((r.scope? id).any fun s => (s.findVariable? name).isSome) = true := by
      have none_there := variableIn?_eq_none_iff.mpr fun w hw => apart w hw name hn
      cases hs : r.scope? id <;> simp_all [variableIn?]
    refine ⟨_, if_neg ?_⟩
    rw [Bool.or_eq_true, not_or]
    exact ⟨free (by simp [Symbol.answersTo]), free (by simp [Symbol.answersTo])⟩

theorem variableIn?_enter (hhome : r.Knows home) (v : Variable) (id : ScopeId) (name : String) :
    (r.enter home (.variable v)).variableIn? id name =
      (r.variableIn? id name).or (if home = id ∧ v.symbol.answersTo name then some v else none) := by
  rw [variableIn?_eq, variableIn?_eq, definitions_enter hhome, List.filterMap_append, List.find?_append]
  by_cases hid : home = id
  · by_cases hn : v.symbol.answersTo name <;> simp [hid, hn, Definition.asVariable?]
  · simp [hid]

section Defined

variable (h : r.WellFormed) (hhome : r.Knows home) (hdef : r.defineVariable home v = (.ok (), r'))

include hhome hdef

/-- In its scope the new variable is the only one that answers to its names. -/
theorem variableIn?_defined (hn : v.symbol.answersTo name) : r'.variableIn? home name = some v := by
  obtain ⟨apart, rfl⟩ := defineVariable_ok hdef
  have none_there : r.variableIn? home name = none :=
    variableIn?_eq_none_iff.mpr fun w hw hw' => apart _ hw name ⟨hw', hn⟩
  rw [variableIn?_enter hhome, none_there, if_pos ⟨rfl, hn⟩]
  rfl

theorem variableIn?_elsewhere (hne : ¬(home = id ∧ v.symbol.answersTo name)) :
    r'.variableIn? id name = r.variableIn? id name := by
  obtain ⟨_, rfl⟩ := defineVariable_ok hdef
  rw [variableIn?_enter hhome, if_neg hne, Option.or_none]

include h

/-- The scopes around are those that were there. -/
theorem resolveVariable?_step_defined {s : Scope} (hs : r.scope? id = some s) (name : String) :
    r'.resolveVariable? id name =
      ((r'.variableIn? id name).map (id, ·)).or (s.parent?.bind (r'.resolveVariable? · name)) := by
  have applies : (Operation.defineVariable home v).Applies r := fun _ hop => Option.some.inj hop ▸ hhome
  have wf := h.perform applies hdef
  obtain ⟨_, rfl⟩ := defineVariable_ok hdef
  obtain ⟨s', hs', grown⟩ := (r.extends_enter home (.variable v)).scopes id s hs
  rw [wf.resolveVariable?_step hs', Scope.parent?, grown.enclosing, Scope.parent?]

/-- From where nothing hides it, the new variable is found. -/
theorem resolveVariable?_unhidden (hn : v.symbol.answersTo name) (seen : r.Unhidden name home id) :
    r'.resolveVariable? id name = some (home, v) := by
  have found {s : Scope} (hs : r.scope? home = some s) : r'.resolveVariable? home name = some (home, v) := by
    rw [resolveVariable?_step_defined h hhome hdef hs, variableIn?_defined hhome hdef hn]
    rfl
  induction seen with
  | here =>
      obtain ⟨s, hs⟩ := knows_iff.mp hhome
      exact found hs
  | @outwards id parent s hs hparent free around ih =>
      by_cases hid : home = id
      · subst hid
        exact found hs
      · have none_here : r'.variableIn? id name = none := by
          rw [variableIn?_elsewhere hhome hdef fun both => hid both.1]
          exact variableIn?_eq_none_iff.mpr free
        rw [resolveVariable?_step_defined h hhome hdef hs, none_here, hparent]
        exact ih

/-- Under another name, and from where it is hidden, all is found as before. -/
theorem resolveVariable?_hidden (hidden : ¬(v.symbol.answersTo name ∧ r.Unhidden name home id)) :
    r'.resolveVariable? id name = r.resolveVariable? id name := by
  -- outwards: if the variable were seen from the parent and nothing is found here, it would be seen from here
  induction id using Nat.strongRecOn with
  | _ id ih =>
      cases hs : r.scope? id with
      | none =>
          have unknown : r'.scope? id = none := by
            obtain ⟨_, rfl⟩ := defineVariable_ok hdef
            rw [scope?_enter, hs, Option.map_none]
          rw [resolveVariable?_of_unknown hs, resolveVariable?_of_unknown unknown]
      | some s =>
          have here : ¬(home = id ∧ v.symbol.answersTo name) := by
            rintro ⟨rfl, hn⟩
            exact hidden ⟨hn, .here⟩
          rw [resolveVariable?_step_defined h hhome hdef hs, h.resolveVariable?_step hs,
            variableIn?_elsewhere hhome hdef here]
          cases hv : r.variableIn? id name with
          | some w => rfl
          | none =>
              cases hparent : s.parent? with
              | none => rfl
              | some parent =>
                  refine ih parent ((h.outwards hs).2 parent hparent).1 ?_
                  rintro ⟨hn, around⟩
                  exact hidden ⟨hn, .outwards hs hparent (variableIn?_eq_none_iff.mp hv) around⟩

end Defined

/-! ### Functions and structs -/

theorem ancestors_enter (r : Registry) (home id : ScopeId) (d : Definition) :
    (r.enter home d).ancestors id = r.ancestors id := by
  simp only [ancestors, scope?_enter]
  cases r.scope? id with
  | none => rfl
  | some s => by_cases hid : home = id <;> simp [hid]

/-- What is looked for among other definitions is found as before. -/
theorem filterMap_declared_enter {β : Type} {f : Definition → Option β} {d : Definition} (hd : f d = none) :
    ((r.enter home d).declared id).filterMap f = (r.declared id).filterMap f := by
  have same (a : ScopeId) :
      ((r.enter home d).definitions a).filterMap f = (r.definitions a).filterMap f := by
    rcases r.definitions_enter_cases home a d with heq | ⟨_, heq⟩
    · rw [heq]
    · rw [heq, List.filterMap_append, List.filterMap_cons_none hd, List.filterMap_nil, List.append_nil]
  have declares : (r.enter home d).declares = r.declares := funext fun a => r.declares_enter home a d
  simp only [declared, ancestors_enter, declares, List.filterMap_flatMap, same]

/-- A variable can be entered if and only if it shares no name with another of its scope. From then on it is
found under its two names, from its scope and from all scopes inside that no variable of the name lies between;
from elsewhere and under other names the same variables are found as before, and so are functions and structs
from anywhere. -/
theorem defineVariable_lexical (h : r.WellFormed) (hhome : r.Knows home) (v : Variable) :
    ((∃ r', r.defineVariable home v = (.ok (), r')) ↔
      ∀ w, .variable w ∈ r.definitions home → ∀ name, v.symbol.answersTo name → ¬w.symbol.answersTo name) ∧
    ∀ r', r.defineVariable home v = (.ok (), r') → ∀ id name,
      (v.symbol.answersTo name ∧ r.Unhidden name home id → r'.resolveVariable? id name = some (home, v)) ∧
      (¬(v.symbol.answersTo name ∧ r.Unhidden name home id) →
        r'.resolveVariable? id name = r.resolveVariable? id name) ∧
      r'.function? id name = r.function? id name ∧ r'.functionsNamed id name = r.functionsNamed id name ∧
      r'.struct? id name = r.struct? id name ∧ r'.fields? id name = r.fields? id name := by
  refine ⟨defineVariable_isOk_iff, ?_⟩
  intro r' hdef id name
  refine ⟨fun seen => resolveVariable?_unhidden h hhome hdef seen.1 seen.2,
    resolveVariable?_hidden h hhome hdef, ?_⟩
  obtain ⟨_, rfl⟩ := defineVariable_ok hdef
  have functions : (r.enter home (.variable v)).functions id = r.functions id := filterMap_declared_enter rfl
  have structs : (r.enter home (.variable v)).structs id = r.structs id := filterMap_declared_enter rfl
  refine ⟨?_, ?_, ?_, fields?_congr structs name⟩
  · rw [function?, functions, function?]
  · rw [functionsNamed, functions, functionsNamed]
  · rw [struct?, structs, struct?]

/-- A global variable is known by the name that one of a module is given: the second hides the first under that
name only, from inside the module. -/
theorem defineVariable_lexical_module :
    let y : Variable := ⟨⟨"y", "geo__x", .ofLength 0 1 0⟩, .bool⟩
    let x : Variable := ⟨⟨"x", "geo__x", .ofLength 2 1 0⟩, .unknown⟩
    let r₁ := (Registry.empty.perform (.openModule 0 "geo")).2
    let r₂ := (r₁.perform (.openScope 1 .function)).2
    let r₃ := (r₂.perform (.defineVariable 0 y)).2
    r₃.WellFormed ∧ r₃.Knows 1 ∧ r₃.resolveVariable? 2 "geo__x" = some (0, y) ∧
      ∃ r₄, r₃.defineVariable 1 x = (.ok (), r₄) ∧ r₄.resolveVariable? 2 "geo__x" = some (1, x) ∧
        r₄.resolveVariable? 0 "geo__x" = some (0, y) ∧ r₄.resolveVariable? 2 "y" = some (0, y) := by
  intro y x r₁ r₂ r₃
  have h₁ : Reachable r₁ := .perform .empty (by rintro _ ⟨⟩; decide)
  have h₂ : Reachable r₂ := .perform h₁ (by rintro _ ⟨⟩; decide)
  have h₃ : Reachable r₃ := .perform h₂ (by rintro _ ⟨⟩; decide)
  have wf := h₃.wellFormed
  have known : r₃.Knows 1 := by decide
  obtain ⟨entered, lexical⟩ := defineVariable_lexical wf known x
  obtain ⟨r₄, hdef⟩ := entered.mpr fun _ hw => absurd hw List.not_mem_nil
  refine ⟨wf, known, rfl, r₄, hdef, ?_, ?_, ?_⟩
  · exact (lexical r₄ hdef 2 "geo__x").1 ⟨by decide, .outwards rfl rfl (fun _ hw => absurd hw List.not_mem_nil) .here⟩
  · refine (lexical r₄ hdef 0 "geo__x").2.1 ?_
    rintro ⟨_, seen⟩
    cases seen with
    | outwards hs hparent => cases hs; cases hparent
  · exact (lexical r₄ hdef 2 "y").2.1 (fun seen => absurd seen.1 (by decide))

end Registry
end OnePass
