import Mathlib.Data.List.Basic
import OnePass.Registry.Define
import OnePass.Registry.Lookup

/-!
How a registry grows. Scopes keep their place, kind and surroundings, and what has been entered stays in
front of what is entered later. `Registry.Extends` says so; every operation below extends the registry it
is performed on, and an operation that fails leaves it as it was.
-/

namespace OnePass

/-- The scope is the same, perhaps with more definitions behind those it had. -/
structure Scope.Extends (s s' : Scope) : Prop where
  kind : s'.kind = s.kind
  enclosing : s'.enclosing = s.enclosing
  name : s'.name = s.name
  definitions : s.definitions <+: s'.definitions

namespace Scope.Extends

theorem refl (s : Scope) : s.Extends s := ⟨rfl, rfl, rfl, List.prefix_refl _⟩

theorem trans {s t u : Scope} (h : s.Extends t) (h' : t.Extends u) : s.Extends u :=
  ⟨h'.kind.trans h.kind, h'.enclosing.trans h.enclosing, h'.name.trans h.name,
    h.definitions.trans h'.definitions⟩

end Scope.Extends

namespace Registry

/-- Is there a scope with this number? -/
def Knows (r : Registry) (id : ScopeId) : Prop := id < r.scopes.length

instance (r : Registry) (id : ScopeId) : Decidable (r.Knows id) :=
  inferInstanceAs (Decidable (id < r.scopes.length))

/-- `r'` has all that `r` has, in the same places. -/
structure Extends (r r' : Registry) : Prop where
  scopes : ∀ id s, r.scope? id = some s → ∃ s', r'.scope? id = some s' ∧ s.Extends s'
  modules : r.modules <+: r'.modules
  anonymous : r.anonymous ≤ r'.anonymous

theorem knows_iff {r : Registry} {id : ScopeId} : r.Knows id ↔ ∃ s, r.scope? id = some s := by
  simp only [Knows, scope?, List.getElem?_eq_some_iff]
  exact ⟨fun h => ⟨_, h, rfl⟩, fun ⟨_, h, _⟩ => h⟩

theorem knows_of_kind? {r : Registry} {id : ScopeId} {kind : ScopeKind} (h : r.kind? id = some kind) :
    r.Knows id :=
  let ⟨s, hs, _⟩ := Option.map_eq_some_iff.mp h
  knows_iff.mpr ⟨s, hs⟩

theorem knows_of_declares {r : Registry} {id : ScopeId} (h : r.declares id = true) : r.Knows id := by
  obtain ⟨kind, hkind, _⟩ := (Option.any_eq_true _ _).mp h
  exact knows_of_kind? hkind

theorem mem_of_module? {r : Registry} {key : String} {id : ScopeId} (h : r.module? key = some id) :
    (key, id) ∈ r.modules := by
  obtain ⟨before, after, he, _⟩ := List.lookup_eq_some_iff.mp h
  simp [he]

namespace Extends

variable {r r' r'' : Registry} {id : ScopeId}

theorem refl (r : Registry) : r.Extends r :=
  ⟨fun _ s h => ⟨s, h, .refl s⟩, List.prefix_refl _, Nat.le_refl _⟩

theorem trans (h : r.Extends r') (h' : r'.Extends r'') : r.Extends r'' where
  scopes id s hs := by
    obtain ⟨s', hs', e⟩ := h.scopes id s hs
    obtain ⟨s'', hs'', e'⟩ := h'.scopes id s' hs'
    exact ⟨s'', hs'', e.trans e'⟩
  modules := h.modules.trans h'.modules
  anonymous := Nat.le_trans h.anonymous h'.anonymous

theorem knows (h : r.Extends r') (hid : r.Knows id) : r'.Knows id := by
  obtain ⟨s, hs⟩ := knows_iff.mp hid
  obtain ⟨s', hs', _⟩ := h.scopes id s hs
  exact knows_iff.mpr ⟨s', hs'⟩

theorem length_le (h : r.Extends r') : r.scopes.length ≤ r'.scopes.length := by
  by_contra hlt
  exact Nat.lt_irrefl _ (h.knows (Nat.lt_of_not_le hlt))

theorem kind?_eq (h : r.Extends r') (hid : r.Knows id) : r'.kind? id = r.kind? id := by
  obtain ⟨s, hs⟩ := knows_iff.mp hid
  obtain ⟨s', hs', e⟩ := h.scopes id s hs
  simp only [kind?, hs, hs', Option.map_some, e.kind]

theorem declares_eq (h : r.Extends r') (hid : r.Knows id) : r'.declares id = r.declares id := by
  simp only [declares, h.kind?_eq hid]

theorem ancestors_eq (h : r.Extends r') (hid : r.Knows id) : r'.ancestors id = r.ancestors id := by
  obtain ⟨s, hs⟩ := knows_iff.mp hid
  obtain ⟨s', hs', e⟩ := h.scopes id s hs
  simp only [ancestors, hs, hs', e.enclosing]

theorem module?_eq_some (h : r.Extends r') {key : String} (hm : r.module? key = some id) :
    r'.module? key = some id := by
  obtain ⟨rest, he⟩ := h.modules
  simp only [module?] at hm ⊢
  rw [← he, List.lookup_append, hm]
  rfl

theorem definitions_prefix (h : r.Extends r') (id : ScopeId) :
    r.definitions id <+: r'.definitions id := by
  cases hs : r.scope? id with
  | none => simp only [definitions, hs, Option.map_none, Option.getD_none, List.nil_prefix]
  | some s =>
      obtain ⟨s', hs', e⟩ := h.scopes id s hs
      simpa only [definitions, hs, hs', Option.map_some, Option.getD_some] using e.definitions

/-- The segments of the modules around a scope, provided that the scopes around it are there. -/
theorem modulePath_eq (h : r.Extends r') (hid : r.Knows id)
    (around : ∀ a ∈ r.ancestors id, r.Knows a) : r'.modulePath id = r.modulePath id := by
  simp only [modulePath, h.ancestors_eq hid]
  congr 1
  apply List.filterMap_congr
  intro a ha
  obtain ⟨s, hs⟩ := knows_iff.mp (around a ha)
  obtain ⟨s', hs', e⟩ := h.scopes a s hs
  obtain ⟨kind, _, name, _⟩ := s
  obtain ⟨kind', _, name', _⟩ := s'
  obtain rfl : kind' = kind := e.kind
  obtain rfl : name' = name := e.name
  simp only [hs, hs']
  cases kind' <;> rfl

end Extends

/-- A scope that is there and that no function, struct or module may be declared in. -/
def Inner (r : Registry) (id : ScopeId) : Prop := r.Knows id ∧ r.declares id = false

theorem Inner.mono {r r' : Registry} {id : ScopeId} (h : r.Inner id) (hx : r.Extends r') :
    r'.Inner id :=
  ⟨hx.knows h.1, (hx.declares_eq h.1).trans h.2⟩

/-! ### What the single steps do -/

section Steps

variable (r : Registry) (id j : ScopeId)

theorem scope?_openScope_of_knows {r : Registry} {j : ScopeId} (h : r.Knows j) (id : ScopeId)
    (k : ScopeKind) (n : Option String) : (r.openScope id k n).2.scope? j = r.scope? j :=
  List.getElem?_append_left h

theorem scope?_openScope_new (k : ScopeKind) (n : Option String) :
    (r.openScope id k n).2.scope? r.scopes.length =
      some { kind := k, enclosing := r.ancestors id, name := n } := by
  simp only [openScope, scope?, List.getElem?_concat_length]

theorem knows_openScope (k : ScopeKind) (n : Option String) :
    (r.openScope id k n).2.Knows j ↔ r.Knows j ∨ j = r.scopes.length := by
  simp only [Knows, openScope, List.length_append, List.length_singleton]
  exact Nat.lt_succ_iff_lt_or_eq

/-- The new scope is the only one that is not as before. -/
theorem scope?_openScope_cases {r : Registry} {id j : ScopeId} {k : ScopeKind} {n : Option String}
    {s : Scope} (hs : (r.openScope id k n).2.scope? j = some s) :
    (r.scope? j = some s ∧ r.Knows j) ∨
      (j = r.scopes.length ∧ s = { kind := k, enclosing := r.ancestors id, name := n }) := by
  rcases (r.knows_openScope id j k n).mp (knows_iff.mpr ⟨s, hs⟩) with hj | rfl
  · exact .inl ⟨(scope?_openScope_of_knows hj id k n).symm.trans hs, hj⟩
  · rw [scope?_openScope_new] at hs
    exact .inr ⟨rfl, (Option.some.inj hs).symm⟩

theorem definitions_openScope (k : ScopeKind) (n : Option String) :
    (r.openScope id k n).2.definitions j = r.definitions j := by
  by_cases hj : r.Knows j
  · simp only [definitions, scope?_openScope_of_knows hj]
  · have unknown : r.scope? j = none := List.getElem?_eq_none (Nat.le_of_not_lt hj)
    cases hs : (r.openScope id k n).2.scope? j with
    | none => simp only [definitions, hs, unknown]
    | some s =>
        rcases scope?_openScope_cases hs with ⟨_, known⟩ | ⟨_, rfl⟩
        · exact absurd known hj
        · simp only [definitions, hs, unknown, Option.map_some, Option.getD_some, Option.map_none,
            Option.getD_none]

theorem extends_openScope (k : ScopeKind) (n : Option String) :
    r.Extends (r.openScope id k n).2 where
  scopes j s h := by
    have hj : r.Knows j := knows_iff.mpr ⟨s, h⟩
    exact ⟨s, (scope?_openScope_of_knows hj id k n).trans h, .refl s⟩
  modules := List.prefix_refl _
  anonymous := Nat.le_refl _

theorem inner_openScope {k : ScopeKind} (hk : k.declares = false) (n : Option String) :
    (r.openScope id k n).2.Inner r.scopes.length :=
  ⟨(r.knows_openScope id _ k n).mpr (.inr rfl), by
    simp only [declares, kind?, scope?_openScope_new, Option.map_some, Option.any_some, hk]⟩

/-- A scope of another kind does not come to declare anything. -/
theorem declares_openScope {k : ScopeKind} (hk : k.declares = false) (n : Option String) :
    (r.openScope id k n).2.declares j = r.declares j := by
  by_cases hj : r.Knows j
  · exact (r.extends_openScope id k n).declares_eq hj
  · have unknown : r.scope? j = none := List.getElem?_eq_none (Nat.le_of_not_lt hj)
    cases hs : (r.openScope id k n).2.scope? j with
    | none => simp only [declares, kind?, hs, unknown]
    | some s =>
        rcases scope?_openScope_cases hs with ⟨_, known⟩ | ⟨_, rfl⟩
        · exact absurd known hj
        · simp only [declares, kind?, hs, unknown, Option.map_some, Option.any_some, hk, Option.map_none,
            Option.any_none]

theorem scope?_enter (d : Definition) :
    (r.enter id d).scope? j =
      (r.scope? j).map fun s =>
        if id = j then { s with definitions := s.definitions ++ [d] } else s := by
  simp only [enter, scope?, List.getElem?_modify]
  cases r.scopes[j]? with
  | none => rfl
  | some s => by_cases h : id = j <;> simp [h]

theorem declares_enter (d : Definition) : (r.enter id d).declares j = r.declares j := by
  have kinds : (r.enter id d).kind? j = r.kind? j := by
    simp only [kind?, scope?_enter, Option.map_map]
    congr 1
    funext s
    by_cases hj : id = j <;> simp [hj]
  simp only [declares, kinds]

theorem extends_enter (d : Definition) : r.Extends (r.enter id d) where
  scopes j s h := by
    rw [scope?_enter, h]
    refine ⟨_, rfl, ?_⟩
    by_cases hj : id = j
    · simp only [hj, if_true]
      exact ⟨rfl, rfl, rfl, List.prefix_append _ _⟩
    · simp only [hj, if_false]
      exact .refl s
  modules := List.prefix_refl _
  anonymous := Nat.le_refl _

theorem definitions_enter {r : Registry} {id : ScopeId} (h : r.Knows id) (d : Definition)
    (j : ScopeId) :
    (r.enter id d).definitions j = r.definitions j ++ if id = j then [d] else [] := by
  simp only [definitions, scope?_enter]
  by_cases hj : id = j
  · subst hj
    obtain ⟨s, hs⟩ := knows_iff.mp h
    simp only [hs, if_true, Option.map_some, Option.getD_some]
  · simp only [hj, if_false, List.append_nil, Option.map_id']

/-- A definition is entered into the scope, if that is there, and into no other. -/
theorem definitions_enter_cases (d : Definition) :
    (r.enter id d).definitions j = r.definitions j ∨
      id = j ∧ (r.enter id d).definitions j = r.definitions j ++ [d] := by
  by_cases hid : r.Knows id
  · rw [definitions_enter hid]
    by_cases hj : id = j
    · exact .inr ⟨hj, by rw [if_pos hj]⟩
    · exact .inl (by rw [if_neg hj, List.append_nil])
  · rw [enter, List.modify_eq_self (Nat.le_of_not_lt hid)]
    exact .inl rfl

theorem extends_addModule (key : String) :
    r.Extends { r with modules := r.modules ++ [(key, id)] } where
  scopes _ s h := ⟨s, h, .refl s⟩
  modules := List.prefix_append _ _
  anonymous := Nat.le_refl _

theorem extends_nameAnonymous : r.Extends r.nameAnonymous.2 where
  scopes _ s h := ⟨s, h, .refl s⟩
  modules := List.prefix_refl _
  anonymous := Nat.le_succ _

/-- A module is found, or a scope is opened for it and its name noted. -/
theorem openModule_cases (name : String) :
    (∃ known, r.module? (Name.qualified (r.modulePath id ++ [name])) = some known ∧
        r.openModule id name = (known, r)) ∨
      (r.module? (Name.qualified (r.modulePath id ++ [name])) = none ∧
        r.openModule id name = (r.scopes.length,
          { (r.openScope id .module (some name)).2 with
            modules := r.modules ++ [(Name.qualified (r.modulePath id ++ [name]), r.scopes.length)] })) := by
  simp only [openModule]
  cases h : r.module? (Name.qualified (r.modulePath id ++ [name])) with
  | none => exact .inr ⟨rfl, rfl⟩
  | some known => exact .inl ⟨known, rfl, rfl⟩

theorem extends_openModule (name : String) : r.Extends (r.openModule id name).2 := by
  obtain ⟨_, _, h⟩ | ⟨_, h⟩ := r.openModule_cases id name
  · rw [h]
    exact .refl r
  · rw [h]
    exact (r.extends_openScope id .module (some name)).trans
      ((r.openScope id .module (some name)).2.extends_addModule r.scopes.length _)

theorem definitions_openModule (name : String) :
    (r.openModule id name).2.definitions j = r.definitions j := by
  obtain ⟨_, _, h⟩ | ⟨_, h⟩ := r.openModule_cases id name
  · rw [h]
  · rw [h]
    exact r.definitions_openScope id j .module (some name)

end Steps

end Registry
end OnePass
