import OnePass.Proofs.Registry.WellFormed

/-!
The operations on a registry as data, so that a run of them can be spoken of. An operation that fails leaves
the registry as it was. Whatever is reached from the empty registry is well-formed.
-/

namespace OnePass

namespace Registry

variable {r r' : Registry} {id : ScopeId}

/-! ### When a definition is entered -/

theorem mem_definitions_iff {s : Scope} (hs : r.scope? id = some s) {d : Definition} :
    d ∈ r.definitions id ↔ d ∈ s.definitions := by
  simp only [definitions, hs, Option.map_some, Option.getD_some]

/-- Only a variable of the scope itself keeps a name from being looked up in vain. -/
theorem variableIn?_isSome_iff {name : String} :
    (r.variableIn? id name).isSome ↔
      ∃ v, .variable v ∈ r.definitions id ∧ v.symbol.answersTo name := by
  cases hs : r.scope? id with
  | none => simp [variableIn?, definitions, hs]
  | some s =>
      simp only [variableIn?, hs, Option.bind_some, Scope.findVariable?, List.find?_isSome,
        List.mem_filterMap, mem_definitions_iff hs]
      constructor
      · rintro ⟨v, ⟨d, hd, hv⟩, hn⟩
        cases d <;> simp only [Definition.asVariable?, Option.some.injEq, reduceCtorEq] at hv
        exact ⟨v, hv ▸ hd, hn⟩
      · rintro ⟨v, hd, hn⟩
        exact ⟨v, ⟨_, hd, rfl⟩, hn⟩

theorem defineVariable_ok {v : Variable} (h : r.defineVariable id v = (.ok (), r')) :
    (∀ d ∈ r.definitions id, d.Apart (.variable v)) ∧ r' = r.enter id (.variable v) := by
  have taken (name : String) :
      ((r.scope? id).any fun s => (s.findVariable? name).isSome) = (r.variableIn? id name).isSome := by
    cases hs : r.scope? id <;> simp [variableIn?, hs]
  simp only [defineVariable, taken, Bool.or_eq_true] at h
  split at h
  · cases h
  · rename_i free
    obtain ⟨hn, hi⟩ := not_or.mp free
    refine ⟨?_, (Prod.mk.inj h).2.symm⟩
    intro d hd
    match d with
    | .variable w =>
        rintro name ⟨hw, hv⟩
        simp only [Symbol.answersTo, Bool.or_eq_true, beq_iff_eq] at hv
        rcases hv with rfl | rfl
        · exact hn (variableIn?_isSome_iff.mpr ⟨w, hd, hw⟩)
        · exact hi (variableIn?_isSome_iff.mpr ⟨w, hd, hw⟩)
    | .function _ | .struct _ | .marker _ _ => trivial

theorem defineFunction_ok {f : Overload} (h : r.defineFunction f = (.ok (), r')) :
    (∀ d ∈ r.definitions global, d.Apart (.function f)) ∧ r' = r.enter global (.function f) := by
  simp only [defineFunction] at h
  split at h
  · cases h
  · rename_i free
    refine ⟨?_, (Prod.mk.inj h).2.symm⟩
    intro d hd
    match d with
    | .function g =>
        intro he
        apply free
        simp only [List.any_eq_true, beq_iff_eq]
        exact ⟨g, List.mem_filterMap.mpr ⟨_, hd, rfl⟩, he⟩
    | .variable _ | .struct _ | .marker _ _ => trivial

theorem defineStruct_ok {s : Struct} (h : r.defineStruct id s = (.ok (), r')) :
    r.declares id ∧ (∀ d ∈ r.definitions global, d.Apart (.struct s)) ∧
      r' = r.enter global (.struct s) := by
  simp only [defineStruct] at h
  split at h
  · cases h
  · rename_i root
    split at h
    · cases h
    · rename_i free
      refine ⟨by simpa using root, ?_, (Prod.mk.inj h).2.symm⟩
      intro d hd
      match d with
      | .struct t =>
          intro he
          apply free
          simp only [List.any_eq_true, beq_iff_eq]
          exact ⟨t, List.mem_filterMap.mpr ⟨_, hd, rfl⟩, he⟩
      | .variable _ | .function _ | .marker _ _ => trivial

theorem defineMarker_ok {symbol : Symbol} {kind : MarkerKind}
    (h : r.defineMarker id symbol kind = (.ok (), r')) :
    (∀ d ∈ r.definitions id, d.Apart (.marker symbol kind)) ∧
      r' = r.enter id (.marker symbol kind) := by
  simp only [defineMarker] at h
  split at h
  · cases h
  · rename_i free
    refine ⟨?_, (Prod.mk.inj h).2.symm⟩
    intro d hd
    match d with
    | .marker other _ =>
        intro he
        apply free
        simp only [List.any_eq_true]
        exact ⟨_, hd, by simpa using he⟩
    | .variable _ | .function _ | .struct _ => trivial

end Registry

/-! ### Operations as data -/

inductive Operation where
  | nameAnonymous
  | openScope (parent : ScopeId) (kind : ScopeKind)
  | openModule (parent : ScopeId) (name : String)
  | defineVariable (id : ScopeId) (v : Variable)
  | defineFunction (f : Overload)
  /-- A struct with fields of its own, or with those of another. -/
  | defineStruct (id : ScopeId) (s : Struct)
  | defineMarker (id : ScopeId) (symbol : Symbol) (kind : MarkerKind)

namespace Operation

/-- The scope an operation is performed in; functions need none. -/
def scope? : Operation → Option ScopeId
  | nameAnonymous | defineFunction _ => none
  | openScope id _ | openModule id _ | defineVariable id _ | defineStruct id _
  | defineMarker id _ _ => some id

/-- Is the scope there? -/
def Applies (op : Operation) (r : Registry) : Prop := ∀ id, op.scope? = some id → r.Knows id

/-- What an operation enters, if anything, and where. -/
def defines? : Operation → Option (ScopeId × Definition)
  | nameAnonymous | openScope .. | openModule .. => none
  | defineVariable id v => some (id, .variable v)
  | defineFunction f => some (Registry.global, .function f)
  | defineStruct _ s => some (Registry.global, .struct s)
  | defineMarker id symbol kind => some (id, .marker symbol kind)

end Operation

namespace Registry

variable {r r' : Registry} {op : Operation}

/-- Performs an operation: whether it fails, and the registry from then on. -/
def perform (r : Registry) : Operation → Except Fault Unit × Registry
  | .nameAnonymous => (.ok (), r.nameAnonymous.2)
  | .openScope id kind => (.ok (), (r.openScope id kind).2)
  | .openModule id name => (.ok (), (r.openModule id name).2)
  | .defineVariable id v => r.defineVariable id v
  | .defineFunction f => r.defineFunction f
  | .defineStruct id s => r.defineStruct id s
  | .defineMarker id symbol kind => r.defineMarker id symbol kind

theorem perform_eq_ok (h : (r.perform op).1.isOk = true) : r.perform op = (.ok (), (r.perform op).2) := by
  rcases hp : r.perform op with ⟨_ | _, r'⟩
  · rw [hp] at h
    cases h
  · rfl

/-- Each operation checks before it changes anything. -/
theorem perform_failed {fault : Fault} (h : r.perform op = (.error fault, r')) : r' = r := by
  have checked {c : Prop} [Decidable c] {fault₀ : Fault} {r₀ : Registry}
      (h : (if c then (.error fault₀, r) else (.ok (), r₀)) = (Except.error fault, r')) : r' = r := by
    split at h
    · exact (Prod.mk.inj h).2.symm
    · cases h
  cases op with
  | nameAnonymous | openScope | openModule => cases h
  | defineVariable | defineFunction | defineMarker => exact checked h
  | defineStruct id s =>
      rw [perform, defineStruct] at h
      split at h
      · exact (Prod.mk.inj h).2.symm
      · exact checked h

/-- An operation that defines something does no more than enter it. -/
theorem enter_of_perform {id : ScopeId} {d : Definition} (hop : op.defines? = some (id, d))
    (h : r.perform op = (.ok (), r')) : r' = r.enter id d := by
  cases op <;> cases hop
  case defineVariable => exact (defineVariable_ok h).2
  case defineFunction => exact (defineFunction_ok h).2
  case defineStruct => exact (defineStruct_ok h).2.2
  case defineMarker => exact (defineMarker_ok h).2

theorem extends_of_perform (h : r.perform op = (.ok (), r')) : r.Extends r' := by
  cases op with
  | nameAnonymous => exact (Prod.mk.inj h).2 ▸ r.extends_nameAnonymous
  | openScope id kind => exact (Prod.mk.inj h).2 ▸ r.extends_openScope id kind none
  | openModule id name => exact (Prod.mk.inj h).2 ▸ r.extends_openModule id name
  | defineVariable | defineFunction | defineStruct | defineMarker =>
      rw [enter_of_perform rfl h]
      exact r.extends_enter _ _

/-- An operation enters no more than it says, behind what was there. -/
theorem definitions_of_perform (h : r.perform op = (.ok (), r')) (j : ScopeId) :
    r'.definitions j = r.definitions j ∨
      ∃ d, op.defines? = some (j, d) ∧ r'.definitions j = r.definitions j ++ [d] := by
  cases op with
  | nameAnonymous => exact .inl ((Prod.mk.inj h).2 ▸ rfl)
  | openScope id kind => exact .inl ((Prod.mk.inj h).2 ▸ r.definitions_openScope id j kind none)
  | openModule id name => exact .inl ((Prod.mk.inj h).2 ▸ r.definitions_openModule id j name)
  | defineVariable | defineFunction | defineStruct | defineMarker =>
      rw [enter_of_perform rfl h]
      refine (r.definitions_enter_cases _ j _).imp_right ?_
      rintro ⟨rfl, hd⟩
      exact ⟨_, rfl, hd⟩

/-- What is defined after an operation was so before, or the operation has entered it. -/
theorem mem_definitions_of_perform {j : ScopeId} {d : Definition} (h : r.perform op = (.ok (), r'))
    (hd : d ∈ r'.definitions j) : d ∈ r.definitions j ∨ op.defines? = some (j, d) := by
  rcases definitions_of_perform h j with heq | ⟨d', hop, heq⟩
  · exact .inl (heq ▸ hd)
  · rw [heq] at hd
    refine (List.mem_append.mp hd).imp_right fun hd => ?_
    rw [List.mem_singleton.mp hd]
    exact hop

theorem WellFormed.perform (hr : r.WellFormed) (applies : op.Applies r)
    (h : r.perform op = (.ok (), r')) : r'.WellFormed := by
  cases op with
  | nameAnonymous => exact (Prod.mk.inj h).2 ▸ hr.nameAnonymous
  | openScope id kind => exact (Prod.mk.inj h).2 ▸ hr.openScope (applies id rfl) kind none
  | openModule id name => exact (Prod.mk.inj h).2 ▸ hr.openModule (applies id rfl) name
  | defineVariable id v =>
      obtain ⟨apart, rfl⟩ := defineVariable_ok h
      exact hr.enter (applies id rfl) trivial apart
  | defineFunction f =>
      obtain ⟨apart, rfl⟩ := defineFunction_ok h
      exact hr.enter hr.knows_global rfl apart
  | defineStruct id s =>
      obtain ⟨_, apart, rfl⟩ := defineStruct_ok h
      exact hr.enter hr.knows_global rfl apart
  | defineMarker id symbol kind =>
      obtain ⟨apart, rfl⟩ := defineMarker_ok h
      exact hr.enter (applies id rfl) trivial apart

/-- Operations that succeed lead from one registry to another, each in a scope that is there by then. -/
inductive LeadsTo (r : Registry) : Registry → Prop
  | refl : LeadsTo r r
  | step (op : Operation) {r₁ r₂ : Registry} (before : LeadsTo r r₁) (applies : op.Applies r₁)
      (after : r₁.perform op = (.ok (), r₂)) : LeadsTo r r₂

theorem LeadsTo.grows (h : r.LeadsTo r') : r.Extends r' := by
  induction h with
  | refl => exact .refl r
  | step _ _ _ after ih => exact ih.trans (extends_of_perform after)

theorem LeadsTo.wellFormed (h : r.LeadsTo r') (hr : r.WellFormed) : r'.WellFormed := by
  induction h with
  | refl => exact hr
  | step _ _ applies after ih => exact ih.perform applies after

/-- A registry that operations lead to, each in a scope that is there when it is performed. -/
inductive Reachable : Registry → Prop
  | empty : Reachable .empty
  | perform {r : Registry} {op : Operation} (before : Reachable r) (applies : op.Applies r) :
      Reachable (r.perform op).2

theorem Reachable.wellFormed (h : Reachable r) : r.WellFormed := by
  induction h with
  | empty => exact .empty
  | @perform r op _ applies ih =>
      rcases h : r.perform op with ⟨fault | _, r'⟩
      · exact perform_failed h ▸ ih
      · exact ih.perform applies h

end Registry
end OnePass
