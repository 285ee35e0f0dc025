import OnePass.Proofs.Region.Tokens
import OnePass.Proofs.Registry.Stability
import OnePass.Proofs.Registry.Tidy

/-!
What reading enters into a registry. A reading begins with a registry that is well-formed and tidy, in a
scope of it, and meets a list of tokens. All it does to the registry is a run of operations, and of each of
them it is known where it is performed, with what, and which tokens have been read by then:
`Reading.Enters`. Everything that holds of a registry after reading follows from that by induction on the
run.
-/

namespace OnePass

/-! ### Modules that are named -/

/-- The tokens spell a path: names with `::` between them. -/
inductive Spells : List Token → List String → Prop where
  | name {t : Token} (h : t.kind = .identifier) : Spells [t] [t.lexeme]
  | next {ts : List Token} {segments : List String} {c t : Token} (before : Spells ts segments)
      (colons : c.kind = .colonColon) (name : t.kind = .identifier) :
      Spells (ts ++ [c, t]) (segments ++ [t.lexeme])

/-- The word `module` and a path behind it stand among the tokens; comments do not count. -/
def Heads (ts : List Token) (segments : List String) : Prop :=
  ∃ run t path, run <:+: ts ∧ Region.significant run = t :: path ∧ t.kind = .kwModule ∧
    Spells path segments

/-- How a variable is introduced. Behind `let` it may be written to; behind `const`, and as a parameter, it
may not. -/
def Token.Introduces (before : Token) (v : Variable) : Prop :=
  before.kind ∈ [.kwLet, .kwConst, .leftParen, .comma] ∧
    (v.type.isMutable = true ↔ before.kind = .kwLet)

/-- The variable has the name of the token at a place, stands where the token does, and is introduced by the
token in front of it. -/
def Variable.DeclaredAt (v : Variable) (ts : List Token) (i : Nat) : Prop :=
  ∃ t before, ts[i]? = some t ∧ t.kind = .identifier ∧ v.symbol.name = t.lexeme ∧ v.symbol.span = t.span ∧
    tokenBefore? ts i = some before ∧ before.Introduces v

/-- Where variables may be entered while tokens are read in the scope `home` and there were `old` scopes
before: in that scope, in one that was opened since, and in a module that is named in the tokens. -/
inductive Registry.Admits (reg : Registry) (ts : List Token) (home : Option ScopeId) (old : Nat) :
    ScopeId → Prop where
  | home {id : ScopeId} (h : home = some id) : Admits reg ts home old id
  | opened {id : ScopeId} (h : old ≤ id) : Admits reg ts home old id
  | module {outer id : ScopeId} {segments : List String} (around : Admits reg ts home old outer)
      (declares : reg.declares outer = true) (heads : Heads ts segments)
      (found : reg.module? (Name.qualified (reg.modulePath outer ++ segments)) = some id) :
      Admits reg ts home old id

namespace Registry.Admits

variable {reg reg₁ : Registry} {ts ts' : List Token} {home : Option ScopeId} {old : Nat} {id : ScopeId}

theorem mono (h : reg.Admits ts home old id) (hts : ts <+: ts') : reg.Admits ts' home old id := by
  induction h with
  | home h => exact .home h
  | opened h => exact .opened h
  | module _ declares heads found ih =>
      obtain ⟨run, t, path, hrun, hspells⟩ := heads
      exact .module ih declares ⟨run, t, path, hrun.trans hts.isInfix, hspells⟩ found

theorem later (h : reg.Admits ts home old id) (wf : reg.WellFormed) (hx : reg.Extends reg₁) :
    reg₁.Admits ts home old id := by
  induction h with
  | home h => exact .home h
  | opened h => exact .opened h
  | module _ declares heads found ih =>
      have hk := knows_of_declares declares
      refine .module ih ((hx.declares_eq hk).trans declares) heads ?_
      rw [wf.modulePath_eq hx hk]
      exact hx.module?_eq_some found

end Registry.Admits

/-! ### Types that are there -/

/-- Is this a struct, an enum or a class? -/
def Definition.isType : Definition → Bool
  | .struct _ => true
  | .marker _ kind => kind != .enumMember
  | .variable _ | .function _ => false

/-- Is there a struct, an enum or a class known by this name? -/
def Registry.HasType (reg : Registry) (name : String) : Prop :=
  ∃ id, ∃ d ∈ reg.definitions id, d.isType = true ∧ d.symbol.internal = name

theorem Registry.HasType.mono {reg reg₁ : Registry} {name : String} (h : reg.HasType name)
    (hx : reg.Extends reg₁) : reg₁.HasType name :=
  let ⟨id, d, hd, hname⟩ := h
  ⟨id, d, (hx.definitions_prefix id).mem hd, hname⟩

/-- The type is made of types that are written with names of the tokens, and of those in the registry. -/
def Registry.Makes (T : Token → Prop) (reg : Registry) (t : Ty) : Prop :=
  ∀ P, Ty.Hereditary P → (∀ u, u.Written (Named T) → P u) → reg.AllTypes P → P t

/-! ### Readings -/

/-- Something is read: which tokens, what is known of them, and against which registry and in which of its
scopes. Where there is no such scope, definitions are entered only into those that are opened. -/
structure Reading where
  token : Token → Prop
  start : Registry
  home : Option ScopeId
  wellFormed : start.WellFormed
  tidy : start.Tidy token
  tokens : List Token := []
  known : ∀ t ∈ tokens, token t := by simp

namespace Reading

variable (rd : Reading)

/-- May variables be entered in a scope once the tokens in front of `p` have been read? -/
def Allows (p : Nat) (reg : Registry) (id : ScopeId) : Prop :=
  reg.Admits (rd.tokens.take p) rd.home rd.start.scopes.length id

/-- A function as it is declared: under its name and the types of its parameters, or without a name. -/
def Declares (reg : Registry) (f : Overload) : Prop :=
  ((∃ scope name, Word rd.token name ∧ f.symbol.name = reg.qualify scope name ∧
      f.symbol.internal = Name.overload f.symbol.name f.params f.traits.isExtern) ∨
    ∃ reg₀ : Registry, f.symbol.internal = reg₀.nameAnonymous.1) ∧
  (∀ p ∈ f.params, p.Written (Named rd.token)) ∧ f.result.Written (Named rd.token)

/-- What is known of an operation that is performed once the tokens in front of `p` have been read. -/
def Enters (p : Nat) (reg : Registry) : Operation → Prop
  | .nameAnonymous => True
  | .openScope _ kind => kind = .block ∨ kind = .function
  | .openModule parent name =>
    reg.declares parent = true ∧ Word rd.token name ∧
      ∃ outer, rd.Allows p reg outer ∧ reg.declares outer = true
  | .defineVariable id v =>
    rd.Allows p reg id ∧ (∃ i < p, v.DeclaredAt rd.tokens i) ∧
      (v.symbol.internal = v.symbol.name ∨
        reg.declares id = true ∧ v.symbol.internal = reg.qualify id v.symbol.name) ∧
      reg.Makes rd.token v.type
  | .defineFunction f => rd.Declares reg f
  | .defineStruct id s =>
    Word rd.token s.symbol.name ∧ s.symbol.internal = reg.qualify id s.symbol.name ∧
      ∀ fields, s.layout = .fields fields →
        (fields.map (·.name)).Nodup ∧ ∀ f ∈ fields, f.type.Written (Named rd.token) ∧
          f.type.Mentions fun n => n = s.symbol.internal ∨ reg.HasType n
  | .defineMarker id symbol kind =>
    rd.Allows p reg id ∧ Word rd.token symbol.name ∧
      (kind = .enumType ∧ symbol.internal = reg.qualify id symbol.name ∨
        kind = .enumMember ∧
          ∃ enum, Named rd.token enum ∧ symbol.internal = Name.qualified [enum, symbol.name])

/-- Reading the tokens in front of `p` may lead from one registry to the other. -/
inductive Leads (p : Nat) (reg : Registry) : Registry → Prop where
  | refl : Leads p reg reg
  | step {reg₁ reg₂ : Registry} {op : Operation} (before : Leads p reg reg₁)
      (applies : op.Applies reg₁) (enters : rd.Enters p reg₁ op) (after : reg₁.perform op = (.ok (), reg₂)) :
      Leads p reg reg₂

/-- Reading may lead from one registry to the other. -/
abbrev Reaches (reg reg₁ : Registry) : Prop := rd.Leads rd.tokens.length reg reg₁

variable {rd} {p q : Nat} {reg reg₁ reg₂ : Registry} {id : ScopeId}

theorem Allows.mono (h : rd.Allows p reg id) (hle : p ≤ q) : rd.Allows q reg id :=
  Registry.Admits.mono h (List.take_prefix_take_left hle)

theorem word {i : Nat} {t : Token} (ht : rd.tokens[i]? = some t) (hk : t.kind = .identifier) :
    Word rd.token t.lexeme :=
  ⟨t, rd.known t (List.mem_of_getElem? ht), hk, rfl⟩

theorem Enters.mono {op : Operation} (h : rd.Enters p reg op) (hle : p ≤ q) : rd.Enters q reg op := by
  cases op with
  | openModule parent name =>
      obtain ⟨hdeclares, hname, outer, houter, hd⟩ := h
      exact ⟨hdeclares, hname, outer, houter.mono hle, hd⟩
  | defineVariable id v =>
      obtain ⟨hallows, ⟨i, hi, hdeclared⟩, hrest⟩ := h
      exact ⟨hallows.mono hle, ⟨i, Nat.lt_of_lt_of_le hi hle, hdeclared⟩, hrest⟩
  | defineMarker id symbol kind => exact ⟨h.1.mono hle, h.2⟩
  | nameAnonymous | openScope | defineFunction | defineStruct => exact h

namespace Leads

theorem mono (h : rd.Leads p reg reg₁) (hle : p ≤ q) : rd.Leads q reg reg₁ := by
  induction h with
  | refl => exact .refl
  | step _ applies enters after ih => exact .step ih applies (enters.mono hle) after

theorem trans (h : rd.Leads p reg reg₁) (h' : rd.Leads p reg₁ reg₂) : rd.Leads p reg reg₂ := by
  induction h' with
  | refl => exact h
  | step _ applies enters after ih => exact .step ih applies enters after

theorem grows (h : rd.Leads p reg reg₁) : reg.Extends reg₁ := by
  induction h with
  | refl => exact .refl reg
  | step _ _ _ after ih => exact ih.trans (Registry.extends_of_perform after)

/-- What is defined at the end was so at the beginning, or it has been entered on the way. -/
theorem definition_cases (h : rd.Leads p reg reg₁) {d : Definition} (hd : d ∈ reg₁.definitions id) :
    d ∈ reg.definitions id ∨
      ∃ reg₀ op, rd.Leads p reg reg₀ ∧ rd.Enters p reg₀ op ∧ op.defines? = some (id, d) := by
  induction h with
  | refl => exact .inl hd
  | step before _ enters after ih =>
      rcases Registry.mem_definitions_of_perform after hd with hd | hd
      · exact ih hd
      · exact .inr ⟨_, _, before, enters, hd⟩

theorem wellFormed (h : rd.Leads p reg reg₁) (hreg : reg.WellFormed) : reg₁.WellFormed := by
  induction h with
  | refl => exact hreg
  | step _ applies _ after ih => exact ih.perform applies after

end Leads

/-- Variables and markers are entered where they may be; all else goes into the global scope. -/
theorem Enters.allows {op : Operation} {d : Definition} (enters : rd.Enters p reg op)
    (hop : op.defines? = some (id, d)) :
    rd.Allows p reg id ∨ id = Registry.global ∧ d.asVariable? = none := by
  cases op with
  | nameAnonymous | openScope | openModule => cases hop
  | defineVariable | defineMarker =>
      cases hop
      exact .inl enters.1
  | defineFunction | defineStruct =>
      cases hop
      exact .inr ⟨rfl, rfl⟩

/-- What has been entered into a scope on the way stands behind what was there. -/
theorem Leads.exists_entered (h : rd.Leads p reg reg₁) (hreg : reg.WellFormed) (id : ScopeId) :
    ∃ entered, reg₁.definitions id = reg.definitions id ++ entered ∧ ∀ d ∈ entered,
      rd.Allows p reg₁ id ∨ id = Registry.global ∧ d.asVariable? = none := by
  induction h with
  | refl => exact ⟨[], (List.append_nil _).symm, by simp⟩
  | step before applies enters after ih =>
      obtain ⟨entered, heq, hentered⟩ := ih
      have wf := before.wellFormed hreg
      have hx := Registry.extends_of_perform after
      have later {d : Definition} (hd : rd.Allows p _ id ∨ id = Registry.global ∧ d.asVariable? = none) :=
        hd.imp_left fun hallows => Registry.Admits.later hallows wf hx
      rcases Registry.definitions_of_perform after id with hsame | ⟨d, hop, hmore⟩
      · exact ⟨entered, hsame.trans heq, fun d hd => later (hentered d hd)⟩
      · refine ⟨entered ++ [d], by rw [hmore, heq, List.append_assoc], fun d' hd' => ?_⟩
        rcases List.mem_append.mp hd' with hd' | hd'
        · exact later (hentered d' hd')
        · exact List.mem_singleton.mp hd' ▸ later (enters.allows hop)

/-- Where nothing may be entered, nothing is. -/
theorem Leads.definitions_eq (h : rd.Leads p reg reg₁) (hreg : reg.WellFormed)
    (hid : ¬rd.Allows p reg₁ id) (hne : id ≠ Registry.global) :
    reg₁.definitions id = reg.definitions id := by
  obtain ⟨entered, heq, hentered⟩ := h.exists_entered hreg id
  cases entered with
  | nil => rw [heq, List.append_nil]
  | cons d ds =>
      rcases hentered d List.mem_cons_self with hallows | ⟨hglobal, _⟩
      · exact absurd hallows hid
      · exact absurd hglobal hne

/-- Where no variable may be entered, none is. -/
theorem Leads.variablesIn_eq (h : rd.Leads p reg reg₁) (hreg : reg.WellFormed)
    (hid : ¬rd.Allows p reg₁ id) : reg₁.variablesIn id = reg.variablesIn id := by
  obtain ⟨entered, heq, hentered⟩ := h.exists_entered hreg id
  have none : entered.filterMap (·.asVariable?) = [] := by
    refine List.filterMap_eq_nil_iff.mpr fun d hd => ?_
    exact ((hentered d hd).resolve_left hid).2
  rw [Registry.variablesIn, heq, List.filterMap_append, none, List.append_nil]
  rfl

/-! ### Readings without a scope to begin with -/

theorem Allows.opened_of_home (h : rd.Allows p reg id) (hhome : rd.home = none)
    (hnew : ∀ id, rd.start.scopes.length ≤ id → reg.declares id = false) :
    rd.start.scopes.length ≤ id := by
  induction h with
  | home h => cases hhome.symm.trans h
  | opened h => exact h
  | module _ declares _ _ ih => cases (hnew _ ih).symm.trans declares

/-- Modules are opened only where one may be declared, and there is no such scope. -/
theorem Leads.declares_of_home (h : rd.Leads p rd.start reg) (hhome : rd.home = none) (id : ScopeId)
    (hid : rd.start.scopes.length ≤ id) : reg.declares id = false := by
  induction h generalizing id with
  | refl =>
      have unknown : rd.start.scope? id = none := List.getElem?_eq_none hid
      simp [Registry.declares, Registry.kind?, unknown]
  | @step reg₁ reg₂ op _ _ enters after ih =>
      cases op with
      | nameAnonymous => exact (Prod.mk.inj after).2 ▸ ih id hid
      | openScope parent kind =>
          have hk : kind.declares = false := by rcases enters with rfl | rfl <;> rfl
          rw [← (Prod.mk.inj after).2, Registry.declares_openScope _ _ _ hk]
          exact ih id hid
      | openModule parent name =>
          obtain ⟨_, _, outer, hallows, hdeclares⟩ := enters
          cases (ih outer (hallows.opened_of_home hhome ih)).symm.trans hdeclares
      | defineVariable | defineFunction | defineStruct | defineMarker =>
          rw [Registry.enter_of_perform rfl after, Registry.declares_enter]
          exact ih id hid

/-- Such a reading leaves the variables of all scopes that were there as they are. -/
theorem Leads.variablesIn_eq_of_home (h : rd.Leads p rd.start reg) (hhome : rd.home = none)
    (hid : rd.start.Knows id) : reg.variablesIn id = rd.start.variablesIn id :=
  h.variablesIn_eq rd.wellFormed fun hallows =>
    Nat.not_le_of_lt hid (hallows.opened_of_home hhome (h.declares_of_home hhome))

/-! ### Tidiness -/

/-- Operations of a reading keep a registry tidy. -/
theorem Enters.tidy {op : Operation} (enters : rd.Enters p reg op) (applies : op.Applies reg)
    (hreg : reg.WellFormed) (h : reg.Tidy rd.token) (after : reg.perform op = (.ok (), reg₁)) :
    reg₁.Tidy rd.token := by
  cases op with
  | nameAnonymous => exact (Prod.mk.inj after).2 ▸ h.nameAnonymous
  | openScope parent kind =>
      obtain rfl := (Prod.mk.inj after).2
      refine h.openScope fun hk => ?_
      obtain rfl | rfl := enters <;> cases hk
  | openModule parent name => exact (Prod.mk.inj after).2 ▸ h.openModule enters.2.1
  | defineVariable id v =>
      obtain ⟨_, rfl⟩ := Registry.defineVariable_ok after
      exact h.enter (applies id rfl) (enters.2.2.2 _ Ty.hereditary_mentions (fun _ ht => ht.mentions) h.types)
  | defineFunction f =>
      obtain ⟨_, rfl⟩ := Registry.defineFunction_ok after
      obtain ⟨_, hp, hr⟩ := enters
      exact h.enter hreg.knows_global ⟨fun p hm => (hp p hm).mentions, hr.mentions⟩
  | defineStruct id s =>
      obtain ⟨_, _, rfl⟩ := Registry.defineStruct_ok after
      obtain ⟨_, _, hfields⟩ := enters
      obtain ⟨symbol, layout⟩ := s
      cases layout with
      | fields fields =>
          exact h.enter hreg.knows_global fun f hf => ((hfields fields rfl).2 f hf).1.mentions
      | «alias» target => exact h.enter hreg.knows_global trivial
  | defineMarker id symbol kind =>
      obtain ⟨_, rfl⟩ := Registry.defineMarker_ok after
      obtain ⟨_, hname, ⟨_, he⟩ | ⟨hk, _⟩⟩ := enters
      · exact h.enter (applies id rfl) fun _ => he ▸ h.qualify (.word hname)
      · exact h.enter (applies id rfl) fun hne => absurd hk hne

theorem Leads.tidy (h : rd.Leads p reg reg₁) (hreg : reg.WellFormed) (htidy : reg.Tidy rd.token) :
    reg₁.Tidy rd.token := by
  induction h with
  | refl => exact htidy
  | step before applies enters after ih =>
      exact enters.tidy applies (before.wellFormed hreg) ih after

/-! ### Types -/

section Hereditary

variable {P : Ty → Prop} (hP : Ty.Hereditary P) (hwritten : ∀ t, t.Written (Named rd.token) → P t)

include hP hwritten

theorem Enters.allTypes {op : Operation} {d : Definition} (enters : rd.Enters p reg op) (h : reg.AllTypes P)
    (hop : op.defines? = some (id, d)) : d.AllTypes P := by
  cases op <;> cases hop
  case defineVariable v => exact enters.2.2.2 P hP hwritten h
  case defineFunction f => exact ⟨fun p hp => hwritten p (enters.2.1 p hp), hwritten _ enters.2.2⟩
  case defineStruct s =>
    obtain ⟨symbol, layout⟩ := s
    cases layout with
    | fields fields => exact fun f hf => hwritten _ ((enters.2.2 fields rfl).2 f hf).1
    | «alias» => trivial
  case defineMarker => trivial

theorem Leads.allTypes (h : rd.Leads p reg reg₁) (hreg : reg.AllTypes P) : reg₁.AllTypes P := by
  induction h with
  | refl => exact hreg
  | step _ _ enters after ih => exact ih.perform (fun _ _ => enters.allTypes hP hwritten ih) after

end Hereditary

end Reading
end OnePass
