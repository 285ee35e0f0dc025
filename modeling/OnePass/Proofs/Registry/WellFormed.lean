import OnePass.Proofs.Registry.Growth

/-!
What holds of every registry that the operations build, whichever are performed and in whatever order,
failures included. Scopes form a tree with the global scope at the root; functions and structs are
entered there and nowhere else; and no two definitions of one sort and one scope share a name they
could be looked up by. Each operation tests only what it enters, so the invariant is what makes the tests
enough.
-/

namespace OnePass

namespace Definition

/-- Two definitions of one scope that no look-up confuses. A variable is found by either of its names,
all else by its internal name among its sort. -/
def Apart : Definition → Definition → Prop
  | .variable v, .variable w => ∀ name, ¬(v.symbol.answersTo name ∧ w.symbol.answersTo name)
  | .function f, .function g => f.symbol.internal ≠ g.symbol.internal
  | .struct s, .struct t => s.symbol.internal ≠ t.symbol.internal
  | .marker a _, .marker b _ => a.internal ≠ b.internal
  | _, _ => True

/-- Functions and structs belong into the global scope. -/
def Placed (id : ScopeId) : Definition → Prop
  | .function _ | .struct _ => id = Registry.global
  | .variable _ | .marker .. => True

end Definition

/-- Segments behind others stand behind a separator. -/
theorem Name.qualified_append {segments path : List String} (hne : segments ≠ []) (hpath : path ≠ []) :
    Name.qualified (segments ++ path) = Name.qualified segments ++ Name.separator ++ Name.qualified path := by
  unfold Name.qualified
  induction segments with
  | nil => exact absurd rfl hne
  | cons a segments ih =>
      cases segments with
      | nil =>
          cases path with
          | nil => exact absurd rfl hpath
          | cons => rfl
      | cons b segments =>
          have tail := ih (List.cons_ne_nil _ _)
          simp only [List.cons_append, join] at tail ⊢
          rw [tail]
          simp only [String.append_assoc]

namespace Registry

structure WellFormed (r : Registry) : Prop where
  root : ∃ s, r.scope? global = some s ∧ s.kind = .global ∧ s.enclosing = []
  /-- Any other scope lies in one that was opened before it. -/
  nested : ∀ id s, r.scope? id = some s → id ≠ global →
    ∃ parent, parent < id ∧ s.enclosing = r.ancestors parent
  placed : ∀ id, ∀ d ∈ r.definitions id, d.Placed id
  apart : ∀ id, (r.definitions id).Pairwise Definition.Apart
  /-- A module is noted by the path that leads to it. -/
  modules : ∀ key id, (key, id) ∈ r.modules → ∃ s name, r.scope? id = some s ∧ s.kind = .module ∧
    s.name = some name ∧ Name.qualified (r.modulePath id) = key

namespace WellFormed

variable {r r' : Registry} {id : ScopeId}

theorem knows_global (h : r.WellFormed) : r.Knows global :=
  let ⟨s, hs, _⟩ := h.root
  knows_iff.mpr ⟨s, hs⟩

theorem ancestors_global (h : r.WellFormed) : r.ancestors global = [global] := by
  obtain ⟨s, hs, _, he⟩ := h.root
  simp only [ancestors, hs, he]

/-- Around a scope other than the global one there are its parent and what is around that. -/
theorem ancestors_cases (h : r.WellFormed) (hid : r.Knows id) (hne : id ≠ global) :
    ∃ parent, parent < id ∧ r.Knows parent ∧ r.ancestors id = id :: r.ancestors parent := by
  obtain ⟨s, hs⟩ := knows_iff.mp hid
  obtain ⟨parent, hlt, he⟩ := h.nested id s hs hne
  exact ⟨parent, hlt, Nat.lt_trans hlt hid, by simp only [ancestors, hs, he]⟩

/-- What is so of the global scope, and of a scope if it is so of its parent, is so of all scopes. -/
theorem inwards (h : r.WellFormed) {motive : (id : ScopeId) → r.Knows id → Prop}
    (root : ∀ hid, motive global hid)
    (inner : ∀ id hid parent hparent, id ≠ global → parent < id → r.ancestors id = id :: r.ancestors parent →
      motive parent hparent → motive id hid) (id : ScopeId) (hid : r.Knows id) : motive id hid := by
  induction id using Nat.strongRecOn with
  | _ id ih =>
      by_cases hne : id = global
      · subst hne
        exact root hid
      · obtain ⟨parent, hlt, hparent, he⟩ := h.ancestors_cases hid hne
        exact inner id hid parent hparent hne hlt he (ih parent hlt hparent)

theorem ancestors_le (h : r.WellFormed) (hid : r.Knows id) : ∀ a ∈ r.ancestors id, a ≤ id := by
  induction id, hid using h.inwards with
  | root => simp [h.ancestors_global]
  | inner id _ parent _ _ hlt he ih =>
      rw [he]
      intro a ha
      rcases List.mem_cons.mp ha with rfl | ha
      · exact Nat.le_refl _
      · exact Nat.le_trans (ih a ha) (Nat.le_of_lt hlt)

theorem ancestors_known (h : r.WellFormed) (hid : r.Knows id) : ∀ a ∈ r.ancestors id, r.Knows a :=
  fun a ha => Nat.lt_of_le_of_lt (h.ancestors_le hid a ha) hid

/-- Going outwards, the numbers of the scopes get smaller. -/
theorem ancestors_decreasing (h : r.WellFormed) (hid : r.Knows id) :
    (r.ancestors id).Pairwise (· > ·) := by
  induction id, hid using h.inwards with
  | root => simp [h.ancestors_global]
  | inner id _ parent hparent _ hlt he ih =>
      rw [he, List.pairwise_cons]
      exact ⟨fun a ha => Nat.lt_of_le_of_lt (h.ancestors_le hparent a ha) hlt, ih⟩

theorem ancestors_getLast? (h : r.WellFormed) (hid : r.Knows id) :
    (r.ancestors id).getLast? = some global := by
  induction id, hid using h.inwards with
  | root => simp [h.ancestors_global]
  | inner id _ parent _ _ _ he ih =>
      rw [he, List.getLast?_cons, ih]
      rfl

/-- Only the global scope has nothing around it; from any other the way out goes through its parent, with
numbers that get smaller, and ends at the global one. -/
theorem outwards (h : r.WellFormed) {id : ScopeId} {s : Scope}
    (hs : r.scope? id = some s) :
    (s.parent? = none ↔ id = global) ∧
      ∀ p, s.parent? = some p → p < id ∧ r.ancestors id = id :: r.ancestors p := by
  by_cases hid : id = global
  · subst hid
    obtain ⟨s₀, hs₀, _, he⟩ := h.root
    obtain rfl : s₀ = s := Option.some.inj (hs₀.symm.trans hs)
    simp [Scope.parent?, he]
  · obtain ⟨parent, hlt, hparent, he⟩ := h.ancestors_cases (knows_iff.mpr ⟨s, hs⟩) hid
    obtain ⟨sp, hsp⟩ := knows_iff.mp hparent
    have enclosing : s.enclosing = parent :: sp.enclosing := by
      simpa only [ancestors, hs, hsp, List.cons.injEq, true_and] using he
    simp only [Scope.parent?, enclosing, List.head?_cons, reduceCtorEq, hid, Option.some.injEq,
      true_and]
    rintro _ rfl
    exact ⟨hlt, he⟩

theorem modulePath_eq (h : r.WellFormed) (hx : r.Extends r') (hid : r.Knows id) :
    r'.modulePath id = r.modulePath id :=
  hx.modulePath_eq hid (h.ancestors_known hid)

theorem qualify_eq (h : r.WellFormed) (hx : r.Extends r') (hid : r.Knows id) (name : String) :
    r'.qualify id name = r.qualify id name := by
  rw [qualify, h.modulePath_eq hx hid, qualify]

/-- A module that was noted is still there in a larger registry. -/
theorem module_of_extends (h : r.WellFormed) (hx : r.Extends r') {key : String}
    (hm : (key, id) ∈ r.modules) : ∃ s name, r'.scope? id = some s ∧ s.kind = .module ∧
      s.name = some name ∧ Name.qualified (r'.modulePath id) = key := by
  obtain ⟨s, name, hs, hk, hn, hp⟩ := h.modules key id hm
  obtain ⟨s', hs', e⟩ := hx.scopes _ _ hs
  refine ⟨s', name, hs', e.kind.trans hk, e.name.trans hn, ?_⟩
  rw [h.modulePath_eq hx (knows_iff.mpr ⟨s, hs⟩), hp]

/-! ### The operations keep it -/

theorem empty : Registry.empty.WellFormed where
  root := ⟨_, rfl, rfl, rfl⟩
  nested id s hs hne := by
    obtain ⟨hlt, _⟩ := List.getElem?_eq_some_iff.mp hs
    exact absurd (Nat.lt_one_iff.mp hlt) hne
  placed id d hd := by cases id <;> simp [definitions, scope?, Registry.empty] at hd
  apart id := by cases id <;> simp [definitions, scope?, Registry.empty]
  modules key id h := by simp [Registry.empty] at h

theorem nameAnonymous (h : r.WellFormed) : r.nameAnonymous.2.WellFormed :=
  ⟨h.root, h.nested, h.placed, h.apart, h.modules⟩

/-- What is entered must be placed right and apart from what the scope already has. -/
theorem enter (h : r.WellFormed) {d : Definition} (hid : r.Knows id) (hplaced : d.Placed id)
    (hapart : ∀ d' ∈ r.definitions id, d'.Apart d) : (r.enter id d).WellFormed := by
  have hx := r.extends_enter id d
  have back {j : ScopeId} {s : Scope} (hs : (r.enter id d).scope? j = some s) :
      ∃ s₀, r.scope? j = some s₀ ∧ s.kind = s₀.kind ∧ s.enclosing = s₀.enclosing := by
    rw [scope?_enter] at hs
    obtain ⟨s₀, hs₀, rfl⟩ := Option.map_eq_some_iff.mp hs
    exact ⟨s₀, hs₀, by split <;> rfl, by split <;> rfl⟩
  refine ⟨?_, ?_, ?_, ?_, ?_⟩
  · obtain ⟨s, hs, hk, he⟩ := h.root
    obtain ⟨s', hs', e⟩ := hx.scopes _ _ hs
    exact ⟨s', hs', e.kind.trans hk, e.enclosing.trans he⟩
  · intro j s hs hne
    obtain ⟨s₀, hs₀, _, he⟩ := back hs
    obtain ⟨parent, hlt, hp⟩ := h.nested j s₀ hs₀ hne
    have hparent : r.Knows parent := Nat.lt_trans hlt (knows_iff.mpr ⟨s₀, hs₀⟩)
    exact ⟨parent, hlt, by rw [he, hp, hx.ancestors_eq hparent]⟩
  · intro j d' hd'
    rw [definitions_enter hid, List.mem_append] at hd'
    rcases hd' with hd' | hd'
    · exact h.placed j d' hd'
    · by_cases hj : id = j
      · simp only [hj, if_true, List.mem_singleton] at hd'
        exact hd' ▸ hj ▸ hplaced
      · simp [hj] at hd'
  · intro j
    rw [definitions_enter hid]
    by_cases hj : id = j
    · subst hj
      simp only [if_true]
      refine List.pairwise_append.mpr ⟨h.apart id, List.pairwise_singleton _ _, ?_⟩
      intro a ha b hb
      rw [List.mem_singleton.mp hb]
      exact hapart a ha
    · simpa only [hj, if_false, List.append_nil] using h.apart j
  · exact fun key j hj => h.module_of_extends hx hj

theorem openScope (h : r.WellFormed) (hid : r.Knows id) (k : ScopeKind) (n : Option String) :
    (r.openScope id k n).2.WellFormed := by
  have hx := r.extends_openScope id k n
  have defs (j : ScopeId) := r.definitions_openScope id j k n
  refine ⟨?_, ?_, fun j d hd => h.placed j d (defs j ▸ hd), fun j => defs j ▸ h.apart j, ?_⟩
  · obtain ⟨s, hs, hk, he⟩ := h.root
    exact ⟨s, (scope?_openScope_of_knows h.knows_global id k n).trans hs, hk, he⟩
  · intro j s hs hne
    rcases scope?_openScope_cases hs with ⟨h₀, hj⟩ | ⟨rfl, rfl⟩
    · obtain ⟨parent, hlt, hp⟩ := h.nested j s h₀ hne
      exact ⟨parent, hlt, hp.trans (hx.ancestors_eq (Nat.lt_trans hlt hj)).symm⟩
    · exact ⟨id, hid, (hx.ancestors_eq hid).symm⟩
  · exact fun key j hj => h.module_of_extends hx hj

theorem modulePath_openScope (h : r.WellFormed) (hid : r.Knows id) (name : String) :
    (r.openScope id .module (some name)).2.modulePath r.scopes.length = r.modulePath id ++ [name] := by
  have hx := r.extends_openScope id .module (some name)
  have hnew := r.scope?_openScope_new id .module (some name)
  have hpath := h.modulePath_eq hx hid
  simp only [modulePath, hx.ancestors_eq hid] at hpath
  simp only [modulePath, ancestors, hnew, List.filterMap_cons, List.reverse_cons]
  exact congrArg (· ++ [name]) hpath

theorem openModule (h : r.WellFormed) (hid : r.Knows id) (name : String) :
    (r.openModule id name).2.WellFormed := by
  obtain ⟨_, _, he⟩ | ⟨_, he⟩ := r.openModule_cases id name
  · rw [he]
    exact h
  · rw [he]
    have h' := h.openScope hid .module (some name)
    refine ⟨h'.root, h'.nested, h'.placed, h'.apart, ?_⟩
    intro key j hj
    rcases List.mem_append.mp hj with hj | hj
    · exact h'.modules key j hj
    · obtain ⟨rfl, rfl⟩ := Prod.mk.inj (List.mem_singleton.mp hj)
      exact ⟨_, name, r.scope?_openScope_new id .module (some name), rfl, rfl,
        congrArg Name.qualified (h.modulePath_openScope hid name)⟩

/-! ### The names of modules -/

theorem modulePath_ne_nil (h : r.WellFormed) {key : String} (hm : (key, id) ∈ r.modules) :
    r.modulePath id ≠ [] := by
  obtain ⟨s, name, hs, hk, hn, _⟩ := h.modules key id hm
  obtain ⟨kind, enclosing, _, _⟩ := s
  obtain ⟨rfl, rfl⟩ : kind = .module ∧ _ = some name := ⟨hk, hn⟩
  simp [modulePath, ancestors, hs]

theorem qualified_modulePath (h : r.WellFormed) {key : String} (hm : r.module? key = some id) :
    Name.qualified (r.modulePath id) = key := by
  obtain ⟨_, _, _, _, _, hpath⟩ := h.modules key id (mem_of_module? hm)
  exact hpath

/-- A path in a module has the name of the module in front. -/
theorem qualified_module (h : r.WellFormed) {segments : List String} (hne : segments ≠ [])
    (hm : r.module? (Name.qualified segments) = some id) {path : List String} (hpath : path ≠ []) :
    Name.qualified (r.modulePath id ++ path) = Name.qualified (segments ++ path) := by
  have known := h.modulePath_ne_nil (mem_of_module? hm)
  rw [Name.qualified_append known hpath, h.qualified_modulePath hm, Name.qualified_append hne hpath]

/-- What is declared in a module has the name of the module in front. -/
theorem qualify_module (h : r.WellFormed) {segments : List String} (hne : segments ≠ [])
    (hm : r.module? (Name.qualified segments) = some id) (name : String) :
    r.qualify id name = Name.qualified (segments ++ [name]) :=
  h.qualified_module hne hm (List.cons_ne_nil name [])

end WellFormed

/-- A module that was opened is found by its name. -/
theorem module?_openModule (r : Registry) (id : ScopeId) (name : String) :
    (r.openModule id name).2.module? (r.qualify id name) = some (r.openModule id name).1 := by
  obtain ⟨known, hm, he⟩ | ⟨hm, he⟩ := r.openModule_cases id name
  · rw [he]
    exact hm
  · rw [he]
    simp only [module?] at hm ⊢
    rw [List.lookup_append, qualify, hm]
    simp

end Registry
end OnePass
