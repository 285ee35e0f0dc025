import Mathlib.Data.List.Nodup
import Mathlib.Logic.Relation
import OnePass.Proofs.Registry.Operations
import OnePass.Proofs.Registry.Stability

/-!
Structs that stand for others. An alias has the fields of another struct, which may be an alias as well, so
names lead from one to the next. If they come to a struct with fields of its own, they do so before any of
them comes twice: it is enough to follow as many as there are structs. An alias of a struct that was there
before leads to what was entered earlier, so names that go round in a circle or lead nowhere pass through an
alias of a struct that was not.
-/

namespace OnePass

def Layout.fields? : Layout → Option (List Field)
  | .fields own => some own
  | .alias _ => none

theorem Layout.fields?_eq_some {layout : Layout} {fields : List Field} :
    layout.fields? = some fields ↔ layout = .fields fields := by
  cases layout <;> simp [Layout.fields?]

def Layout.target? : Layout → Option Symbol
  | .fields _ => none
  | .alias target => some target

theorem Layout.target?_eq_some {layout : Layout} {target : Symbol} :
    layout.target? = some target ↔ layout = .alias target := by
  cases layout <;> simp [Layout.target?]

namespace Registry

open Relation (ReflTransGen)

variable {r r₀ : Registry} {id : ScopeId} {name next : String} {fields : List Field}

/-- The fields that a struct has itself. -/
def ownFields? (r : Registry) (name : String) : Option (List Field) :=
  (r.struct? global name).bind (·.layout.fields?)

/-- The struct that an alias stands for, with the path that was written for it. -/
def aliasOf? (r : Registry) (name : String) : Option Symbol :=
  (r.struct? global name).bind (·.layout.target?)

def StandsFor (r : Registry) (name next : String) : Prop := (r.aliasOf? name).map (·.internal) = some next

instance : Decidable (r.StandsFor name next) := inferInstanceAs (Decidable (_ = _))

theorem standsFor_iff : r.StandsFor name next ↔
    ∃ s target, r.struct? global name = some s ∧ s.layout = .alias target ∧ target.internal = next := by
  simp only [StandsFor, aliasOf?, Option.map_eq_some_iff, Option.bind_eq_some_iff, Layout.target?_eq_some]
  grind

theorem StandsFor.unique {next' : String} (h : r.StandsFor name next) (h' : r.StandsFor name next') : next = next' :=
  Option.some.inj (h.symm.trans h')

theorem StandsFor.isSome (h : r.StandsFor name next) : (r.struct? global name).isSome = true := by
  obtain ⟨s, _, hs, _⟩ := standsFor_iff.mp h
  simp [hs]

theorem StandsFor.ownFields?_eq (h : r.StandsFor name next) : r.ownFields? name = none := by
  obtain ⟨s, target, hs, hlayout, _⟩ := standsFor_iff.mp h
  rw [ownFields?, hs, Option.bind_some, hlayout]
  rfl

/-- A struct has fields of its own or is an alias. -/
theorem ownFields_or_standsFor (h : (r.struct? global name).isSome = true) :
    (∃ fields, r.ownFields? name = some fields) ∨ ∃ next, r.StandsFor name next := by
  obtain ⟨s, hs⟩ := Option.isSome_iff_exists.mp h
  simp only [ownFields?, StandsFor, aliasOf?, hs, Option.bind_some]
  cases s.layout with
  | fields fields => exact .inl ⟨fields, rfl⟩
  | «alias» target => exact .inr ⟨target.internal, rfl⟩

/-- There are no more different names of structs than structs. -/
theorem length_le_structs {names : List String} (once : names.Nodup)
    (known : ∀ m ∈ names, (r.struct? global m).isSome = true) : names.length ≤ (r.structs global).length := by
  have entered : names ⊆ (r.structs global).map (·.symbol.internal) := by
    intro m hm
    obtain ⟨s, hs⟩ := Option.isSome_iff_exists.mp (known m hm)
    have hname := List.find?_some (p := fun s : Struct => s.symbol.internal == m) hs
    exact List.mem_map.mpr ⟨s, List.mem_of_find?_eq_some hs, beq_iff_eq.mp hname⟩
  calc names.length
      ≤ ((r.structs global).map (·.symbol.internal)).length := once.length_le_of_subset entered
    _ = (r.structs global).length := List.length_map _

/-! ### Names that come to fields -/

/-- Names that lead from alias to alias, the last of which has fields. -/
inductive Ends (r : Registry) (fields : List Field) : List String → Prop where
  | last {name : String} (h : r.ownFields? name = some fields) : Ends r fields [name]
  | link {name next : String} {names : List String} (h : r.StandsFor name next)
      (later : Ends r fields (next :: names)) : Ends r fields (name :: next :: names)

namespace Ends

variable {names names' : List String} {fields' : List Field}

theorem unique (h : r.Ends fields (name :: names)) (h' : r.Ends fields' (name :: names')) : names = names' := by
  induction names generalizing name names' with
  | nil =>
      cases h with
      | last h =>
          cases h' with
          | last => rfl
          | link h' => cases h'.ownFields?_eq.symm.trans h
  | cons next names ih =>
      cases h with
      | link h later =>
          cases h' with
          | last h' => cases h.ownFields?_eq.symm.trans h'
          | link h' later' =>
              obtain rfl := h.unique h'
              rw [ih later later']

theorem of_mem (h : r.Ends fields names) (hm : name ∈ names) :
    ∃ rest, name :: rest <:+ names ∧ r.Ends fields (name :: rest) := by
  induction h with
  | last h =>
      obtain rfl := List.mem_singleton.mp hm
      exact ⟨[], List.suffix_refl _, .last h⟩
  | link h later ih =>
      rcases List.mem_cons.mp hm with rfl | hm
      · exact ⟨_, List.suffix_refl _, .link h later⟩
      · obtain ⟨rest, hsuffix, hrest⟩ := ih hm
        exact ⟨rest, hsuffix.trans (List.suffix_cons _ _), hrest⟩

/-- From a name that came again the names would go on as before, and not come to an end. -/
theorem nodup (h : r.Ends fields names) : names.Nodup := by
  induction h with
  | last => exact List.nodup_singleton _
  | link h later ih =>
      refine List.nodup_cons.mpr ⟨fun hm => ?_, ih⟩
      obtain ⟨rest, hsuffix, hrest⟩ := later.of_mem hm
      have hlength := hsuffix.length_le
      rw [unique (.link h later) hrest, List.length_cons] at hlength
      exact Nat.not_succ_le_self _ hlength

theorem isSome_of_mem (h : r.Ends fields names) (hm : name ∈ names) : (r.struct? global name).isSome = true := by
  obtain ⟨rest, _, hrest⟩ := h.of_mem hm
  cases hrest with
  | last h =>
      obtain ⟨s, hs, _⟩ := Option.bind_eq_some_iff.mp h
      simp [hs]
  | link h => exact h.isSome

theorem length_le (h : r.Ends fields names) : names.length ≤ (r.structs global).length :=
  length_le_structs h.nodup fun _ => h.isSome_of_mem

theorem followAliases {query : String} {n : Nat} {s : Struct} (h : r.Ends fields (name :: names))
    (hs : r.struct? global name = some s) (hn : names.length < n) :
    r.followAliases global query n s = .ok fields := by
  induction names generalizing name n s with
  | nil =>
      obtain ⟨n, rfl⟩ := Nat.exists_eq_succ_of_ne_zero (Nat.ne_of_gt hn)
      cases h with
      | last h =>
          rw [ownFields?, hs, Option.bind_some] at h
          unfold Registry.followAliases
          cases hlayout : s.layout <;> rw [hlayout] at h <;> cases h
          rfl
  | cons next names ih =>
      obtain ⟨n, rfl⟩ := Nat.exists_eq_succ_of_ne_zero (Nat.ne_of_gt (Nat.lt_of_le_of_lt (Nat.zero_le _) hn))
      cases h with
      | link h later =>
          obtain ⟨t, ht⟩ := Option.isSome_iff_exists.mp (later.isSome_of_mem List.mem_cons_self)
          obtain ⟨_, target, hs', hlayout, rfl⟩ := standsFor_iff.mp h
          obtain rfl := Option.some.inj (hs'.symm.trans hs)
          simp only [Registry.followAliases, hlayout, ht]
          exact ih later ht (Nat.lt_of_succ_lt_succ hn)

end Ends

theorem ends_of_followAliases {query : String} {n : Nat} {s : Struct} (hs : r.struct? global name = some s)
    (h : r.followAliases global query n s = .ok fields) : ∃ names, r.Ends fields (name :: names) := by
  induction n generalizing name s with
  | zero => cases h
  | succ n ih =>
      unfold followAliases at h
      split at h
      · rename_i hlayout
        obtain rfl := Except.ok.inj h
        exact ⟨[], .last (by rw [ownFields?, hs, Option.bind_some, hlayout]; rfl)⟩
      · rename_i target hlayout
        split at h
        · rename_i t ht
          obtain ⟨names, hnames⟩ := ih ht h
          exact ⟨_, .link (standsFor_iff.mpr ⟨s, target, hs, hlayout, rfl⟩) hnames⟩
        · cases h

/-- The aliases of a struct come to fields. -/
def Resolves (r : Registry) (name : String) : Prop := ∃ fields, r.fields? global name = .ok (some fields)

theorem resolves_iff : (r.fields? global name).toOption.any (·.isSome) = true ↔ r.Resolves name := by
  rw [Resolves]
  rcases r.fields? global name with _ | _ | fields <;> simp [Except.toOption]

instance (r : Registry) (name : String) : Decidable (r.Resolves name) := decidable_of_iff _ resolves_iff

/-- The fields of a struct are those at the end of its aliases. -/
theorem fields?_iff_ends : r.fields? global name = .ok (some fields) ↔ ∃ names, r.Ends fields (name :: names) := by
  unfold fields?
  cases hs : r.struct? global name with
  | none =>
      constructor
      · intro h
        cases h
      · rintro ⟨names, h⟩
        have known := h.isSome_of_mem List.mem_cons_self
        rw [hs] at known
        cases known
  | some s =>
      constructor
      · intro h
        obtain ⟨_, hfound, heq⟩ := map_eq_ok.mp h
        obtain rfl := Option.some.inj heq
        exact ends_of_followAliases hs hfound
      · rintro ⟨names, h⟩
        exact map_eq_ok.mpr ⟨fields, h.followAliases hs h.length_le, rfl⟩

/-- An alias has the fields of what it stands for. -/
theorem StandsFor.fields?_iff (h : r.StandsFor name next) :
    r.fields? global name = .ok (some fields) ↔ r.fields? global next = .ok (some fields) := by
  rw [fields?_iff_ends, fields?_iff_ends]
  constructor
  · rintro ⟨names, hnames⟩
    cases hnames with
    | last hfields => cases h.ownFields?_eq.symm.trans hfields
    | link h' later =>
        obtain rfl := h.unique h'
        exact ⟨_, later⟩
  · rintro ⟨names, hnames⟩
    exact ⟨_, .link h hnames⟩

theorem fields?_of_ownFields? (h : r.ownFields? name = some fields) :
    r.fields? global name = .ok (some fields) :=
  fields?_iff_ends.mpr ⟨[], .last h⟩

/-- An alias of a struct that is not there has no fields. -/
theorem fields?_undefined {s : Struct} {target : Symbol} (hs : r.struct? global name = some s)
    (hlayout : s.layout = .alias target) (hnone : r.struct? global target.internal = none) :
    r.fields? global name = .error (.undefinedAlias s.symbol.name target.name) := by
  obtain ⟨n, hn⟩ := Nat.exists_eq_succ_of_ne_zero
    (Nat.ne_of_gt (List.length_pos_of_mem (List.mem_of_find?_eq_some hs)))
  simp only [fields?, hs, hn, followAliases, hlayout, hnone]
  rfl

/-! ### Structs seen from a scope -/

theorem WellFormed.struct?_eq_global (h : r.WellFormed) (hid : r.Knows id) (name : String) :
    r.struct? id name = r.struct? global name := by
  rw [struct?, struct?, h.structs_eq hid, h.structs_eq h.knows_global]

theorem WellFormed.fields?_eq_global (h : r.WellFormed) (hid : r.Knows id) (name : String) :
    r.fields? id name = r.fields? global name :=
  fields?_congr (by rw [h.structs_eq hid, h.structs_eq h.knows_global]) name

/-! ### Structs that are entered -/

theorem WellFormed.structs_defineStruct {s : Struct} (h : r₀.WellFormed) (hid : r₀.Knows id)
    (hdefine : r₀.defineStruct id s = (.ok (), r)) :
    r.structs global = r₀.structs global ++ [s] ∧ r₀.struct? global s.symbol.internal = none := by
  have applies : (Operation.defineStruct id s).Applies r₀ := fun _ hop => Option.some.inj hop ▸ hid
  have wf := h.perform applies hdefine
  obtain ⟨_, apart, rfl⟩ := defineStruct_ok hdefine
  constructor
  · rw [wf.structs_eq wf.knows_global, h.structs_eq h.knows_global, definitions_enter h.knows_global, if_pos rfl,
      List.filterMap_append]
    rfl
  · refine List.find?_eq_none.mpr fun t ht => ?_
    have differ : t.symbol.internal ≠ s.symbol.internal := apart _ ((mem_structs_iff h h.knows_global).mp ht)
    simpa using differ

/-- An operation enters one struct behind those that are there, under a name that none of them has, or it
leaves them as they are. -/
theorem WellFormed.structs_of_perform {op : Operation} (h : r₀.WellFormed) (applies : op.Applies r₀)
    (after : r₀.perform op = (.ok (), r)) :
    r.structs global = r₀.structs global ∨ ∃ id s, op = .defineStruct id s ∧
      r.structs global = r₀.structs global ++ [s] ∧ r₀.struct? global s.symbol.internal = none := by
  by_cases hop : ∃ id s, op = .defineStruct id s
  · obtain ⟨id, s, rfl⟩ := hop
    exact .inr ⟨id, s, rfl, h.structs_defineStruct (applies id rfl) after⟩
  · have wf := h.perform applies after
    rw [wf.structs_eq wf.knows_global, h.structs_eq h.knows_global]
    rcases definitions_of_perform after global with hsame | ⟨d, hd, hmore⟩
    · exact .inl (by rw [hsame])
    · have other : d.asStruct? = none := by
        cases op <;> cases hd
        case defineStruct id s => exact absurd ⟨id, s, rfl⟩ hop
        all_goals rfl
      rw [hmore, List.filterMap_append, List.filterMap_cons_none other, List.filterMap_nil, List.append_nil]
      exact .inl rfl

/-! ### The order of structs -/

/-- How many structs were entered before the one known by a name; all there are, if there is none. -/
def order (r : Registry) (name : String) : Nat := (r.structs global).findIdx (·.symbol.internal == name)

theorem order_lt_iff : r.order name < (r.structs global).length ↔ (r.struct? global name).isSome = true := by
  rw [order, List.findIdx_lt_length, struct?, List.find?_isSome]

/-- What was there before something was entered comes before it. -/
theorem order_lt_length_iff (hx : r₀.structs global <+: r.structs global) :
    r.order name < (r₀.structs global).length ↔ (r₀.struct? global name).isSome = true := by
  obtain ⟨later, heq⟩ := hx
  rw [← order_lt_iff, order, order, ← heq, List.findIdx_append]
  split
  · rfl
  · omega

theorem order_entered {s : Struct} {later : List Struct} (heq : r.structs global = r₀.structs global ++ s :: later)
    (hnew : r₀.struct? global s.symbol.internal = none) :
    r.order s.symbol.internal = (r₀.structs global).length := by
  have first : ¬(r₀.order s.symbol.internal < (r₀.structs global).length) := by simp [order_lt_iff, hnew]
  rw [order] at first
  rw [order, heq, List.findIdx_append, if_neg first, List.findIdx_cons, beq_self_eq_true, cond_true, Nat.zero_add]

/-- A struct that was entered is found by its name from then on, and those before it are those that were there. -/
theorem WellFormed.struct?_of_entered {r₁ : Registry} {s : Struct} (h₀ : r₀.WellFormed) (hid : r₀.Knows id)
    (hdefine : r₀.defineStruct id s = (.ok (), r₁)) (h : r.WellFormed) (hx : r₁.Extends r) :
    r.struct? global s.symbol.internal = some s ∧
      ∀ name, r.order name < r.order s.symbol.internal ↔ (r₀.struct? global name).isSome = true := by
  have applies : (Operation.defineStruct id s).Applies r₀ := fun _ hop => Option.some.inj hop ▸ hid
  have h₁ := h₀.perform applies hdefine
  obtain ⟨heq₁, hnew⟩ := h₀.structs_defineStruct hid hdefine
  obtain ⟨later, hlater⟩ := hx.structs_prefix h₁ h h₁.knows_global
  have heq : r.structs global = r₀.structs global ++ s :: later := by
    rw [← hlater, heq₁, List.append_assoc, List.singleton_append]
  constructor
  · rw [struct?] at hnew ⊢
    rw [heq, List.find?_append, hnew, Option.none_or]
    exact List.find?_cons_of_pos (beq_self_eq_true s.symbol.internal)
  · intro name
    rw [order_entered heq hnew]
    exact order_lt_length_iff ⟨_, heq.symm⟩

/-- An alias of a struct that was not there when the alias was entered. -/
def Forward (r : Registry) (name : String) : Prop :=
  ∃ next, r.StandsFor name next ∧ r.order name ≤ r.order next

/-- Where the aliases of a struct do not come to fields, one of them is of a struct that was not there. -/
theorem resolves_or_forward (hname : (r.struct? global name).isSome = true) :
    r.Resolves name ∨ ∃ m, ReflTransGen r.StandsFor name m ∧ r.Forward m ∧ ¬r.Resolves m := by
  induction hn : r.order name using Nat.strongRecOn generalizing name with
  | _ n ih =>
      obtain rfl := hn
      rcases ownFields_or_standsFor hname with ⟨fields, hfields⟩ | ⟨next, hnext⟩
      · exact .inl ⟨fields, fields?_of_ownFields? hfields⟩
      · by_cases hlt : r.order next < r.order name
        · have known : (r.struct? global next).isSome = true :=
            order_lt_iff.mp (Nat.lt_trans hlt (order_lt_iff.mpr hname))
          rcases ih _ hlt known rfl with ⟨fields, hfields⟩ | ⟨m, hm, hforward⟩
          · exact .inl ⟨fields, hnext.fields?_iff.mpr hfields⟩
          · exact .inr ⟨m, .head hnext hm, hforward⟩
        · by_cases hresolves : r.Resolves name
          · exact .inl hresolves
          · exact .inr ⟨name, .refl, ⟨next, hnext, Nat.le_of_not_lt hlt⟩, hresolves⟩

end Registry
end OnePass
