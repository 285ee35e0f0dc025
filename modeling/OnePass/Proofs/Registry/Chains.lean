import Mathlib.Data.List.Chain
import OnePass.Proofs.Registry.Aliases

/-!
What becomes of a chain of aliases. It starts with a name and goes on with what each alias stands for. Either
there is no struct of the first name, or the chain comes to a struct with fields, or to an alias of a struct
that is not there, or it has no end. The last is the case if and only if it comes to some name twice, which need
not be the first; and since there are only so many structs, a chain that passes through more of them than there
are does come to one twice. So the answer to the question for the fields of a name says what becomes of its
chain.
-/

namespace OnePass

/-- What becomes of the chain of aliases that starts with a name. -/
inductive Fate where
  /-- There is no struct of this name. -/
  | unknown
  /-- It comes to a struct with fields. -/
  | found (fields : List Field)
  /-- It comes to an alias, known by `written`, of a struct that is not there. -/
  | undefined (written target : String)
  | endless

/-- What is answered to the question for the fields of a name. -/
def Fate.answer (name : String) : Fate → Except Fault (Option (List Field))
  | unknown => .ok none
  | found fields => .ok (some fields)
  | undefined written target => .error (.undefinedAlias written target)
  | endless => .error (.cyclicAlias name)

theorem Fate.answer_injective (name : String) : Function.Injective (Fate.answer name) := by
  intro a b h
  cases a <;> cases b <;> simp [answer] at h ⊢ <;> exact h

/-- What becomes of a chain of which this is the last struct. -/
def Struct.fate (s : Struct) : Fate :=
  match s.layout with
  | .fields own => .found own
  | .alias target => .undefined s.symbol.name target.name

namespace Registry

open Relation (ReflTransGen TransGen reflTransGen_iff_eq_or_transGen)

variable {r : Registry} {id : ScopeId} {name next m : String} {fate fate' : Fate}

/-- There is always another name. -/
def Endless (r : Registry) (name : String) : Prop :=
  ∃ chain : Nat → String, chain 0 = name ∧ ∀ n, r.StandsFor (chain n) (chain (n + 1))

/-- What becomes of the chain that starts with a name. -/
inductive HasFate (r : Registry) (name : String) : Fate → Prop where
  | unknown (h : r.struct? global name = none) : HasFate r name .unknown
  | found {m : String} {fields : List Field} (leads : ReflTransGen r.StandsFor name m)
      (own : r.ownFields? m = some fields) : HasFate r name (.found fields)
  | undefined {m : String} {s : Struct} {target : Symbol} (leads : ReflTransGen r.StandsFor name m)
      (hs : r.struct? global m = some s) (hlayout : s.layout = .alias target)
      (missing : r.struct? global target.internal = none) :
      HasFate r name (.undefined s.symbol.name target.name)
  | endless (h : r.Endless name) : HasFate r name .endless

/-! ### Chains without an end -/

theorem standsFor_rightUnique : Relator.RightUnique r.StandsFor := fun _ _ _ => StandsFor.unique

theorem endless_iff : r.Endless name ↔ ∀ m, ReflTransGen r.StandsFor name m → ∃ next, r.StandsFor m next := by
  constructor
  · rintro ⟨chain, rfl, hchain⟩ m hm
    have comes : ∃ n, chain n = m := by
      induction hm with
      | refl => exact ⟨0, rfl⟩
      | tail _ hnext ih =>
          obtain ⟨n, rfl⟩ := ih
          exact ⟨n + 1, (hchain n).unique hnext⟩
    obtain ⟨n, rfl⟩ := comes
    exact ⟨_, hchain n⟩
  · intro goes
    have next (m : { m // ReflTransGen r.StandsFor name m }) :
        ∃ m' : { m // ReflTransGen r.StandsFor name m }, r.StandsFor m.1 m'.1 := by
      obtain ⟨k, hk⟩ := goes m.1 m.2
      exact ⟨⟨k, m.2.tail hk⟩, hk⟩
    choose f hf using next
    refine ⟨fun n => (f^[n] ⟨name, .refl⟩).1, rfl, fun n => ?_⟩
    simp only [Function.iterate_succ_apply']
    exact hf _

theorem Endless.isSome (h : r.Endless name) : (r.struct? global name).isSome = true := by
  obtain ⟨next, hnext⟩ := endless_iff.mp h name .refl
  exact hnext.isSome

/-- From every name of a circle one comes back to where it began. -/
theorem transGen_of_circle (circle : TransGen r.StandsFor m m) {k : String} (hk : ReflTransGen r.StandsFor m k) :
    TransGen r.StandsFor k m := by
  induction hk with
  | refl => exact circle
  | tail _ hnext ih =>
      obtain ⟨b, hb, back⟩ := TransGen.head'_iff.mp ih
      obtain rfl := hb.unique hnext
      rcases reflTransGen_iff_eq_or_transGen.mp back with rfl | back
      · exact circle
      · exact back

theorem endless_of_circle (hm : ReflTransGen r.StandsFor name m) (circle : TransGen r.StandsFor m m) :
    r.Endless name := by
  refine endless_iff.mpr fun k hk => ?_
  have leads : TransGen r.StandsFor k m := by
    rcases hm.total_of_right_unique standsFor_rightUnique hk with hmk | hkm
    · exact transGen_of_circle circle hmk
    · exact TransGen.trans_right hkm circle
  obtain ⟨next, hnext, _⟩ := TransGen.head'_iff.mp leads
  exact ⟨next, hnext⟩

/-- A chain that comes to a name twice goes round in a circle. -/
theorem circle_of_isChain {names : List String} (linked : List.IsChain r.StandsFor (name :: names))
    (twice : ¬(name :: names).Nodup) : ∃ m, ReflTransGen r.StandsFor name m ∧ TransGen r.StandsFor m m := by
  by_contra none_comes
  have leads : (name :: names).Pairwise (TransGen r.StandsFor) :=
    List.isChain_iff_pairwise.mp (linked.imp fun _ _ h => .single h)
  refine twice (List.Pairwise.imp_of_mem ?_ leads)
  rintro a b ha - hab rfl
  refine none_comes ⟨a, ?_, hab⟩
  rcases List.mem_cons.mp ha with rfl | ha
  · exact .refl
  · exact ((List.pairwise_cons.mp leads).1 a ha).to_reflTransGen

/-! ### The answer tells the fate -/

theorem HasFate.link (h : r.StandsFor name next) (known : (r.struct? global next).isSome = true)
    (later : r.HasFate next fate) : r.HasFate name fate := by
  cases later with
  | unknown hnone => simp [hnone] at known
  | found leads own => exact .found (.head h leads) own
  | undefined leads hs hlayout missing => exact .undefined (.head h leads) hs hlayout missing
  | endless later =>
      refine .endless (endless_iff.mpr fun m hm => ?_)
      rcases hm.cases_head with rfl | ⟨next', hnext, hm⟩
      · exact ⟨next, h⟩
      · exact endless_iff.mp later m (hnext.unique h ▸ hm)

/-- What is answered is what becomes of the chain, or it is longer than what was allowed for. -/
theorem followAliases_cases (query : String) (n : Nat) {s : Struct} (hs : r.struct? global name = some s) :
    (∃ fate, r.HasFate name fate ∧ (r.followAliases global query n s).map some = fate.answer query) ∨
      r.followAliases global query n s = .error (.cyclicAlias query) ∧ ∃ names, names.length = n ∧
        List.IsChain r.StandsFor (name :: names) ∧ ∀ m ∈ name :: names, (r.struct? global m).isSome = true := by
  induction n generalizing name s with
  | zero => exact .inr ⟨rfl, [], rfl, .singleton _, by simp [hs]⟩
  | succ n ih =>
      unfold followAliases
      cases hlayout : s.layout with
      | fields own =>
          have hown : r.ownFields? name = some own := by simp [ownFields?, hs, hlayout, Layout.fields?]
          exact .inl ⟨.found own, .found .refl hown, rfl⟩
      | «alias» target =>
          have step : r.StandsFor name target.internal := standsFor_iff.mpr ⟨s, target, hs, hlayout, rfl⟩
          cases ht : r.struct? global target.internal with
          | none => exact .inl ⟨_, .undefined .refl hs hlayout ht, by simp only [ht]; rfl⟩
          | some t =>
              simp only [ht]
              rcases ih ht with ⟨fate, hfate, hanswer⟩ | ⟨herror, names, hlength, linked, known⟩
              · exact .inl ⟨fate, hfate.link step (by simp [ht]), hanswer⟩
              · refine .inr ⟨herror, target.internal :: names, by rw [List.length_cons, hlength], ?_, ?_⟩
                · exact .cons_cons step linked
                · exact List.forall_mem_cons.mpr ⟨by simp [hs], known⟩

theorem exists_fate (r : Registry) (name : String) :
    ∃ fate, r.HasFate name fate ∧ r.fields? global name = fate.answer name := by
  cases hs : r.struct? global name with
  | none => exact ⟨.unknown, .unknown hs, by simp only [fields?, hs]; rfl⟩
  | some s =>
      simp only [fields?, hs]
      rcases followAliases_cases name (r.structs global).length hs with
        hfate | ⟨herror, names, hlength, linked, known⟩
      · exact hfate
      · -- more names of structs than there are structs, so one of them comes twice
        have twice : ¬(name :: names).Nodup := by
          intro once
          have hle := length_le_structs once known
          rw [List.length_cons, hlength] at hle
          exact Nat.not_succ_le_self _ hle
        obtain ⟨m, hm, circle⟩ := circle_of_isChain linked twice
        exact ⟨.endless, .endless (endless_of_circle hm circle), by rw [herror]; rfl⟩

/-! ### There is only one -/

theorem not_standsFor (h : r.struct? global name = none) : ¬r.StandsFor name next := by
  intro hnext
  have known := hnext.isSome
  simp [h] at known

theorem isSome_of_leads (h : ReflTransGen r.StandsFor name m) (known : (r.struct? global m).isSome = true) :
    (r.struct? global name).isSome = true := by
  rcases h.cases_head with rfl | ⟨next, hnext, _⟩
  · exact known
  · exact hnext.isSome

/-- The chain comes to a struct and no further: it has fields, or what it stands for is not there. -/
def ComesTo (r : Registry) (name : String) (s : Struct) : Prop :=
  ∃ m, ReflTransGen r.StandsFor name m ∧ r.struct? global m = some s ∧
    ∀ next, r.StandsFor m next → r.struct? global next = none

namespace ComesTo

variable {s t : Struct}

theorem isSome (h : r.ComesTo name s) : (r.struct? global name).isSome = true := by
  obtain ⟨m, leads, hs, _⟩ := h
  exact isSome_of_leads leads (by simp [hs])

theorem not_endless (h : r.ComesTo name s) : ¬r.Endless name := by
  intro endless
  obtain ⟨m, leads, hs, last⟩ := h
  obtain ⟨next, hnext⟩ := endless_iff.mp endless m leads
  obtain ⟨_, hafter⟩ := endless_iff.mp endless next (leads.tail hnext)
  exact not_standsFor (last next hnext) hafter

theorem unique (h : r.ComesTo name s) (h' : r.ComesTo name t) : s = t := by
  have same {a b : String} {s t : Struct} (hab : ReflTransGen r.StandsFor a b) (hs : r.struct? global a = some s)
      (ht : r.struct? global b = some t) (last : ∀ next, r.StandsFor a next → r.struct? global next = none) :
      s = t := by
    rcases hab.cases_head with rfl | ⟨next, hnext, hb⟩
    · exact Option.some.inj (hs.symm.trans ht)
    · have known := isSome_of_leads hb (by simp [ht])
      simp [last next hnext] at known
  obtain ⟨a, ha, hs, lasta⟩ := h
  obtain ⟨b, hb, ht, lastb⟩ := h'
  rcases ha.total_of_right_unique standsFor_rightUnique hb with hab | hba
  · exact same hab hs ht lasta
  · exact (same hba ht hs lastb).symm

end ComesTo

namespace HasFate

theorem cases_last (h : r.HasFate name fate) :
    r.struct? global name = none ∧ fate = .unknown ∨ r.Endless name ∧ fate = .endless ∨
      ∃ s, r.ComesTo name s ∧ fate = s.fate := by
  cases h with
  | unknown hnone => exact .inl ⟨hnone, rfl⟩
  | endless h => exact .inr (.inl ⟨h, rfl⟩)
  | @found m fields leads own =>
      obtain ⟨s, hs, hfields⟩ := Option.bind_eq_some_iff.mp own
      have hlayout := Layout.fields?_eq_some.mp hfields
      refine .inr (.inr ⟨s, ⟨m, leads, hs, ?_⟩, by rw [Struct.fate, hlayout]⟩)
      intro next hnext
      cases hnext.ownFields?_eq.symm.trans own
  | @undefined m s target leads hs hlayout missing =>
      refine .inr (.inr ⟨s, ⟨m, leads, hs, ?_⟩, by rw [Struct.fate, hlayout]⟩)
      intro next hnext
      have step : r.StandsFor m target.internal := standsFor_iff.mpr ⟨s, target, hs, hlayout, rfl⟩
      exact hnext.unique step ▸ missing

theorem unique (h : r.HasFate name fate) (h' : r.HasFate name fate') : fate = fate' := by
  rcases h.cases_last with ⟨hnone, rfl⟩ | ⟨endless, rfl⟩ | ⟨s, hs, rfl⟩ <;>
    rcases h'.cases_last with ⟨hnone', rfl⟩ | ⟨endless', rfl⟩ | ⟨t, ht, rfl⟩
  · rfl
  · simpa [hnone] using endless'.isSome
  · simpa [hnone] using ht.isSome
  · simpa [hnone'] using endless.isSome
  · rfl
  · exact absurd endless ht.not_endless
  · simpa [hnone'] using hs.isSome
  · exact absurd endless' hs.not_endless
  · rw [hs.unique ht]

end HasFate

/-- Of the four things that may become of a chain of aliases exactly one does, and the answer to the question for
the fields of a name tells which, from whatever scope it is asked. An answer that is a failure is a semantic
one. -/
theorem fields?_tells_fate (h : r.WellFormed) (hid : r.Knows id) (name : String) :
    (∃! fate, r.HasFate name fate) ∧
      (∀ fate : Fate, r.fields? id name = fate.answer name ↔ r.HasFate name fate) ∧
      ∀ fault, r.fields? id name = .error fault → fault.category = .semantic := by
  obtain ⟨fate, hfate, hanswer⟩ := r.exists_fate name
  rw [h.fields?_eq_global hid, hanswer]
  refine ⟨⟨fate, hfate, fun _ other => other.unique hfate⟩, ?_, ?_⟩
  · intro other
    constructor
    · intro heq
      exact Fate.answer_injective name heq ▸ hfate
    · intro hother
      rw [hfate.unique hother]
  · intro fault herror
    cases fate <;> cases herror <;> rfl

/-- A chain that leads into a circle from outside, asked for from within a module. -/
theorem fields?_tells_fate_circle :
    let s (name target : String) : Struct :=
      ⟨⟨name, name, .ofLength 0 1 0⟩, .alias ⟨target, target, .ofLength 2 1 0⟩⟩
    let r₁ := (Registry.empty.perform (.openModule 0 "m")).2
    let r₂ := (r₁.perform (.defineStruct 1 (s "P" "A"))).2
    let r₃ := (r₂.perform (.defineStruct 1 (s "A" "B"))).2
    let r₄ := (r₃.perform (.defineStruct 1 (s "B" "A"))).2
    r₄.WellFormed ∧ r₄.Knows 1 ∧ r₄.HasFate "P" .endless ∧ r₄.fields? 1 "P" = .error (.cyclicAlias "P") := by
  intro s r₁ r₂ r₃ r₄
  have h₁ : Reachable r₁ := .perform .empty (by rintro _ ⟨⟩; decide)
  have h₂ : Reachable r₂ := .perform h₁ (by rintro _ ⟨⟩; decide)
  have h₃ : Reachable r₃ := .perform h₂ (by rintro _ ⟨⟩; decide)
  have h₄ : Reachable r₄ := .perform h₃ (by rintro _ ⟨⟩; decide)
  have known : r₄.Knows 1 := by decide
  have into : r₄.StandsFor "P" "A" := by decide
  have there : r₄.StandsFor "A" "B" := by decide
  have back : r₄.StandsFor "B" "A" := by decide
  have endless : r₄.HasFate "P" .endless :=
    .endless (endless_of_circle (.single into) (.tail (.single there) back))
  exact ⟨h₄.wellFormed, known, endless, ((fields?_tells_fate h₄.wellFormed known "P").2.1 .endless).mpr endless⟩

end Registry
end OnePass
