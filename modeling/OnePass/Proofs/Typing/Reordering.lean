import Mathlib.Data.List.Perm.Basic
import OnePass.Proofs.Registry.Targets

/-!
The order in which functions were entered does not matter. Functions are found by internal names, of which no two
are alike, or all of one name are asked and one alone must take the arguments. So in two registries that differ
in the order of their functions expressions have the same types, slots take the same values and calls have the
same targets. Only what is suggested where a call fails may be another name.
-/

namespace OnePass

/-! ### Lists in another order -/

section Lists

variable {ε α : Type} {as bs : List α}

theorem find?_eq_of_perm {p : α → Bool} (hperm : as.Perm bs)
    (apart : as.Pairwise fun a b => ¬(p a = true ∧ p b = true)) : bs.find? p = as.find? p := by
  cases hfound : bs.find? p with
  | none =>
      refine (List.find?_eq_none.mpr fun a ha => ?_).symm
      exact List.find?_eq_none.mp hfound a (hperm.mem_iff.mp ha)
  | some b =>
      have hb := hperm.mem_iff.mpr (List.mem_of_find?_eq_some hfound)
      exact (Registry.find?_of_mem apart hb (List.find?_some hfound)).symm

theorem filterM_perm {p q : α → Except ε Bool} (hp : ∀ a, (q a).toOption = (p a).toOption) (hperm : as.Perm bs) :
    Option.Rel List.Perm (as.filterM p).toOption (bs.filterM q).toOption := by
  simp only [filterM_toOption, hp, hperm.all_eq]
  split
  · exact .some (hperm.filter _)
  · exact .none

end Lists

/-! ### Registries in another order -/

/-- The scope is the same, perhaps with its functions in another order. -/
structure Scope.Reorders (s s' : Scope) : Prop where
  kind : s'.kind = s.kind
  enclosing : s'.enclosing = s.enclosing
  name : s'.name = s.name
  functions : (s.definitions.filterMap (·.asFunction?)).Perm (s'.definitions.filterMap (·.asFunction?))
  others : s'.definitions.filter (·.asFunction?.isNone) = s.definitions.filter (·.asFunction?.isNone)

theorem Scope.Reorders.refl (s : Scope) : s.Reorders s := ⟨rfl, rfl, rfl, .refl _, rfl⟩

namespace Registry

/-- The registry is the same, perhaps with the functions of the global scope in another order. -/
structure Reorders (r r' : Registry) : Prop where
  root : ∃ s s', r.scope? global = some s ∧ r'.scope? global = some s' ∧ s.Reorders s'
  scopes : ∀ id, id ≠ global → r'.scope? id = r.scope? id
  modules : r'.modules = r.modules
  anonymous : r'.anonymous = r.anonymous

namespace Reorders

variable {r r' : Registry} (hr : r.Reorders r')

include hr

theorem scope?_cases (id : ScopeId) : (r.scope? id = none ∧ r'.scope? id = none) ∨
    ∃ s s', r.scope? id = some s ∧ r'.scope? id = some s' ∧ s.Reorders s' := by
  by_cases hid : id = global
  · subst hid
    exact .inr hr.root
  · rw [hr.scopes id hid]
    cases r.scope? id with
    | none => exact .inl ⟨rfl, rfl⟩
    | some s => exact .inr ⟨s, s, rfl, rfl, .refl s⟩

theorem ancestors_eq (id : ScopeId) : r'.ancestors id = r.ancestors id := by
  rcases hr.scope?_cases id with ⟨hs, hs'⟩ | ⟨s, s', hs, hs', same⟩
  · simp only [ancestors, hs, hs']
  · simp only [ancestors, hs, hs', same.enclosing]

theorem declares_eq : r'.declares = r.declares := by
  funext id
  rcases hr.scope?_cases id with ⟨hs, hs'⟩ | ⟨s, s', hs, hs', same⟩
  · simp only [declares, kind?, hs, hs']
  · simp only [declares, kind?, hs, hs', Option.map_some, same.kind]

theorem modulePath_eq (id : ScopeId) : r'.modulePath id = r.modulePath id := by
  simp only [modulePath, hr.ancestors_eq]
  congr 1
  apply List.filterMap_congr
  intro a _
  rcases hr.scope?_cases a with ⟨hs, hs'⟩ | ⟨s, s', hs, hs', same⟩
  · simp only [hs, hs']
  · obtain ⟨kind, _, segment, _⟩ := s
    obtain ⟨kind', _, segment', _⟩ := s'
    obtain rfl : kind' = kind := same.kind
    obtain rfl : segment' = segment := same.name
    simp only [hs, hs']
    cases kind' <;> rfl

theorem calleeNames_eq (c : Call) : r'.calleeNames c = r.calleeNames c := by
  have same : r'.qualify c.scope c.qualified = r.qualify c.scope c.qualified := by
    rw [qualify, hr.modulePath_eq, qualify]
  simp only [calleeNames, same]

/-- Definitions other than functions are in the same order. -/
theorem filterMap_definitions {β : Type} {f : Definition → Option β} (hf : ∀ g, f (.function g) = none)
    (id : ScopeId) : (r'.definitions id).filterMap f = (r.definitions id).filterMap f := by
  have others (ds : List Definition) :
      ds.filterMap f = (ds.filter (·.asFunction?.isNone)).filterMap f := by
    rw [List.filterMap_filter]
    refine List.filterMap_congr fun d _ => ?_
    cases d with
    | function g => exact hf g
    | «variable» | struct | marker => rfl
  rcases hr.scope?_cases id with ⟨hs, hs'⟩ | ⟨s, s', hs, hs', same⟩
  · simp only [definitions, hs, hs']
  · simp only [definitions, hs, hs', Option.map_some, Option.getD_some]
    rw [others, same.others, ← others]

theorem variableIn?_eq (id : ScopeId) (name : String) : r'.variableIn? id name = r.variableIn? id name := by
  rw [Registry.variableIn?_eq, Registry.variableIn?_eq, hr.filterMap_definitions fun _ => rfl]

theorem resolveVariable?_eq (id : ScopeId) (name : String) :
    r'.resolveVariable? id name = r.resolveVariable? id name := by
  have same (a : ScopeId) := hr.variableIn?_eq a name
  simp only [variableIn?] at same
  simp only [resolveVariable?, hr.ancestors_eq, same]

theorem fields?_eq (id : ScopeId) (name : String) : r'.fields? id name = r.fields? id name := by
  have same (a : ScopeId) :
      (r'.definitions a).filterMap (·.asStruct?) = (r.definitions a).filterMap (·.asStruct?) :=
    hr.filterMap_definitions (fun _ => rfl) a
  refine fields?_congr ?_ name
  simp only [structs, declared, hr.ancestors_eq, hr.declares_eq, List.filterMap_flatMap, same]

theorem functions_perm (id : ScopeId) : (r.functions id).Perm (r'.functions id) := by
  simp only [functions, declared, hr.ancestors_eq, hr.declares_eq, List.filterMap_flatMap]
  refine List.Perm.flatMap_left _ fun a _ => ?_
  rcases hr.scope?_cases a with ⟨hs, hs'⟩ | ⟨s, s', hs, hs', same⟩
  · simp only [definitions, hs, hs', List.Perm.refl]
  · simpa only [definitions, hs, hs', Option.map_some, Option.getD_some] using same.functions

theorem function?_eq (h : r.WellFormed) (id : ScopeId) (name : String) :
    r'.function? id name = r.function? id name := by
  refine find?_eq_of_perm (hr.functions_perm id) ?_
  by_cases hid : r.Knows id
  · exact h.functions_apart hid name
  · have unknown : r.scope? id = none := List.getElem?_eq_none (Nat.le_of_not_lt hid)
    simp [functions, declared, ancestors, unknown]

end Reorders

end Registry

/-! ### Types -/

namespace Typing

open Registry (Reorders)

section Order

variable {r r' : Registry} {scope : ScopeId} (hr : r.Reorders r') (h : r.WellFormed)

include hr

theorem members_reorder (owner : String) (type : Ty) (ms : List Member) :
    members r' scope owner type ms = members r scope owner type ms := by
  induction ms generalizing owner type with
  | nil => rfl
  | cons m ms ih => simp only [members, member, hr.fields?_eq, ih]

include h

theorem identifier_reorder (id : Identifier) : identifier r' id = identifier r id := by
  simp only [identifier, hr.variableIn?_eq, hr.function?_eq h]

theorem result_reorder (c : Call) : (result r' scope c).toOption = (result r scope c).toOption := by
  unfold result
  simp only [hr.variableIn?_eq, hr.function?_eq h]
  cases c.target with
  | function | «variable» => rfl
  -- both fail, though not always with the same suggestion
  | deferred => rw [toOption_error, toOption_error]

theorem infer_reorder (e : Expr) : (infer r' scope e).toOption = (infer r scope e).toOption := by
  fun_induction infer r scope e with
  | case1 | case3 | case10 | case11 | case13 => rfl
  | case2 id => rw [infer, identifier_reorder hr h]
  | case4 base ms => simp only [infer, identifier_reorder hr h, members_reorder hr]
  | case5 array index span ih => simp only [infer, toOption_bind, ih]
  | case6 c => exact result_reorder hr h c
  | case7 op lhs rhs span ihl ihr => simp only [infer, toOption_bind, ihl, ihr]
  | case8 op operand span ih => simp only [infer, toOption_bind, ih]
  | case9 op target value span ih => simpa only [infer] using ih
  | case12 e es span ih => simp only [infer, toOption_bind, ih]

theorem suits_reorder (target : Ty) (value : Expr) :
    (suits r' scope target value).toOption = (suits r scope target value).toOption := by
  simp only [suits, toOption_bind, infer_reorder hr h]

end Order

/-- A test that goes on to another one only if it comes out true, in two versions of each. -/
theorem and_toOption {ε : Type} {x x' y y' : Except ε Bool} (hx : x'.toOption = x.toOption)
    (hy : y'.toOption = y.toOption) :
    (do if ← x' then y' else return false).toOption = (do if ← x then y else return false).toOption := by
  rw [toOption_bind, toOption_bind, hx]
  congr 1
  funext first
  cases first with
  | true => exact hy
  | false => rfl

variable {r r' : Registry} {scope : ScopeId}

mutual

theorem coerces_reorder (hr : r.Reorders r') (h : r.WellFormed) (target : Ty) (value : Expr) :
    (coerces r' scope target value).toOption = (coerces r scope target value).toOption := by
  unfold coerces
  split
  · rfl
  · split
    · exact coercesAll_reorder hr h _ _
    · exact suits_reorder hr h _ _

theorem coercesAll_reorder (hr : r.Reorders r') (h : r.WellFormed) (target : Ty) (values : List Expr) :
    (coercesAll r' scope target values).toOption = (coercesAll r scope target values).toOption := by
  cases values with
  | nil => simp only [coercesAll]
  | cons e es =>
      rw [coercesAll, coercesAll]
      exact and_toOption (coerces_reorder hr h target e) (coercesAll_reorder hr h target es)

end

variable (hr : r.Reorders r') (h : r.WellFormed)

include hr h

theorem coercesEach_reorder (params : List Ty) (args : List Expr) :
    (coercesEach r' scope params args).toOption = (coercesEach r scope params args).toOption := by
  induction params generalizing args with
  | nil => simp only [coercesEach]
  | cons p ps ih =>
      cases args with
      | nil => simp only [coercesEach]
      | cons a as =>
          rw [coercesEach, coercesEach]
          exact and_toOption (coerces_reorder hr h p a) (ih as)

theorem argumentsFit_reorder (params : List Ty) (isVariadic : Bool) (args : List Expr) :
    (argumentsFit r' scope params isVariadic args).toOption =
      (argumentsFit r scope params isVariadic args).toOption := by
  unfold argumentsFit
  split
  · exact coercesEach_reorder hr h params args
  · rfl

end Typing

/-! ### Targets -/

namespace Registry

open Typing

variable {r r' : Registry} {c : Call} {t : Target}

section Order

variable (hr : r.Reorders r') (h : r.WellFormed)

include hr h

theorem takes_reorder (c : Call) (f : Overload) : (r'.takes c f).toOption = (r.takes c f).toOption :=
  argumentsFit_reorder hr h _ _ _

theorem exactTarget?_reorder (names : List String) :
    (r'.exactTarget? c names).toOption = (r.exactTarget? c names).toOption := by
  induction names with
  | nil => rfl
  | cons name names ih =>
      simp only [exactTarget?, hr.function?_eq h]
      split
      · rfl
      · cases r.function? c.scope name with
        | none => exact ih
        | some bare =>
            simp only [toOption_bind, takes_reorder hr h]
            congr 1
            funext fits
            cases fits with
            | true => rfl
            | false => exact ih

theorem variableTarget?_reorder : (r'.variableTarget? c).toOption = (r.variableTarget? c).toOption := by
  unfold variableTarget?
  rw [hr.resolveVariable?_eq]
  split
  · rfl
  · split
    · simp only [toOption_bind, argumentsFit_reorder hr h]
    · rfl

theorem onlyTarget?_reorder (names : List String) :
    (r'.onlyTarget? c names).toOption = (r.onlyTarget? c names).toOption := by
  induction names with
  | nil => rfl
  | cons name names ih =>
      have named : (r.functionsNamed c.scope name).Perm (r'.functionsNamed c.scope name) :=
        (hr.functions_perm c.scope).filter _
      have kept := filterM_perm (takes_reorder hr h c) named
      simp only [onlyTarget?, toOption_bind]
      generalize ((r.functionsNamed c.scope name).filterM (r.takes c)).toOption = fs at kept ⊢
      generalize ((r'.functionsNamed c.scope name).filterM (r'.takes c)).toOption = gs at kept ⊢
      cases kept with
      | none => rw [Option.bind_none, Option.bind_none]
      | @some fs gs hperm =>
          -- none, one or more of them: that is all that counts
          rcases fs with _ | ⟨f, _ | ⟨f', fs⟩⟩
          · obtain rfl := hperm.nil_eq
            simpa only [Option.bind_some] using ih
          · obtain rfl := hperm.singleton_eq
            simp only [Option.bind_some]
          · obtain ⟨g, g', gs, rfl⟩ : ∃ g g' rest, gs = g :: g' :: rest := by
              have hlength := hperm.length_eq
              rcases gs with _ | ⟨g, _ | ⟨g', gs⟩⟩
              · cases hlength
              · cases hlength
              · exact ⟨g, g', gs, rfl⟩
            simp only [Option.bind_some, fault, toOption_error]

theorem target?_reorder (c : Call) : (r'.target? c).toOption = (r.target? c).toOption := by
  simp only [target?, toOption_bind, hr.calleeNames_eq, exactTarget?_reorder hr h]
  congr 1
  funext direct
  cases direct with
  | some t => rfl
  | none =>
      simp only [toOption_bind, variableTarget?_reorder hr h]
      congr 1
      funext held
      cases held with
      | some t => rfl
      | none => exact onlyTarget?_reorder hr h _

end Order

/-- A function that is chosen last takes the arguments, and all others of its name have been asked and do not. -/
theorem function_of_onlyTarget? {names : List String} (ht : r.onlyTarget? c names = .ok (some t)) :
    ∃ f ∈ r.functions c.scope, t = .function f.symbol.internal ∧ f.symbol.name ∈ names ∧
      r.takes c f = .ok true ∧
      ∀ g ∈ r.functions c.scope, g.symbol.name = f.symbol.name → g = f ∨ r.takes c g = .ok false := by
  induction names with
  | nil => cases ht
  | cons name names ih =>
      obtain ⟨fs, hfs, ht⟩ := bind_eq_ok.mp ht
      obtain ⟨asked, kept⟩ := filterM_eq_ok hfs
      split at ht
      · obtain ⟨f, hf, htarget, hname, rest⟩ := ih ht
        exact ⟨f, hf, htarget, List.mem_cons_of_mem _ hname, rest⟩
      · rename_i f
        obtain rfl := Option.some.inj (Except.ok.inj ht)
        obtain ⟨hnamed, htakes⟩ := (kept f).mp (List.mem_singleton_self f)
        obtain ⟨hf, hname⟩ := List.mem_filter.mp hnamed
        obtain rfl := beq_iff_eq.mp hname
        refine ⟨f, hf, rfl, List.mem_cons_self, htakes, ?_⟩
        intro g hg hname
        have hnamed' : g ∈ r.functionsNamed c.scope f.symbol.name :=
          List.mem_filter.mpr ⟨hg, beq_iff_eq.mpr hname⟩
        obtain ⟨keep, hkeep⟩ := asked g hnamed'
        cases keep with
        | true => exact .inl (List.mem_singleton.mp ((kept g).mpr ⟨hnamed', hkeep⟩))
        | false => exact .inr hkeep
      · cases ht

/-- In two registries that differ in the order of their functions a call has the same target, or none in both, or
the search fails in both. And where the last stage of the search chooses a function, this takes the arguments and
no other of the same name does. -/
theorem target?_orderless (h : r.WellFormed) (hr : r.Reorders r') (c : Call) :
    (∀ found, r'.target? c = .ok found ↔ r.target? c = .ok found) ∧
      ∀ t, r.onlyTarget? c (r.calleeNames c) = .ok (some t) →
        ∃ f ∈ r.functions c.scope, t = .function f.symbol.internal ∧ f.symbol.name ∈ r.calleeNames c ∧
          r.takes c f = .ok true ∧
          ∀ g ∈ r.functions c.scope, g.symbol.name = f.symbol.name → g = f ∨ r.takes c g = .ok false := by
  refine ⟨fun found => ?_, fun _ => function_of_onlyTarget?⟩
  rw [← toOption_eq_some, target?_reorder hr h, toOption_eq_some]

/-- Two functions of one name, and a call that only the first of them takes, whichever is entered first. -/
theorem target?_orderless_pair :
    let f (param : Primitive) (internal : String) : Overload :=
      ⟨⟨"f", internal, .ofLength 0 1 0⟩, [.ofPrimitive param], .bool, {}⟩
    let run (f g : Overload) := ((Registry.empty.perform (.defineFunction f)).2.perform (.defineFunction g)).2
    let r := run (f .i64 "f(i64)") (f .string "f(string)")
    let r' := run (f .string "f(string)") (f .i64 "f(i64)")
    let c : Call := ⟨"f", "f", [.literal (.integer 1 false) (.ofLength 9 1 0)], [.ofPrimitive .i32], .deferred,
      global, .ofLength 7 4 0⟩
    r.WellFormed ∧ r.Reorders r' ∧ r'.target? c = .ok (some (.function "f(i64)")) := by
  intro f run r r' c
  have h₁ : Reachable (Registry.empty.perform (.defineFunction (f .i64 "f(i64)"))).2 :=
    .perform .empty (by rintro _ ⟨⟩)
  have h₂ : Reachable r := .perform h₁ (by rintro _ ⟨⟩)
  have reordered : r.Reorders r' := by
    refine ⟨⟨_, _, rfl, rfl, rfl, rfl, rfl, .swap _ _ _, rfl⟩, ?_, rfl, rfl⟩
    intro id hid
    cases id with
    | zero => exact absurd rfl hid
    | succ id => rfl
  have found : (r.target? c).toOption = some (some (.function "f(i64)")) := by decide +kernel
  refine ⟨h₂.wellFormed, reordered, ?_⟩
  exact ((target?_orderless h₂.wellFormed reordered c).1 _).mpr (toOption_eq_some.mp found)

end Registry
end OnePass
