import OnePass.Proofs.Registry.Operations
import OnePass.Proofs.Registry.Stability
import OnePass.Proofs.Success
import OnePass.Typing.Coercion

/-!
Types and acceptance are settled once they are known: what is declared later changes neither the type
that was inferred for an expression nor whether a slot takes it.
-/

namespace OnePass
namespace Typing

variable {r r' : Registry} {scope : ScopeId}

theorem orFault_eq_ok {α : Type} {found : Option α} {f : Fault} {a : α} :
    orFault found f = .ok a ↔ found = some a := by
  cases found with
  | none => exact ⟨nofun, nofun⟩
  | some b => exact ⟨fun h => congrArg some (Except.ok.inj h), fun h => congrArg _ (Option.some.inj h)⟩

theorem locate_eq_ok {α : Type} {source : Source} {span : Span} {x : Except Diagnostic α} {a : α} :
    locate source span x = .ok a ↔ x = .ok a := by
  cases x with
  | error d => exact ⟨nofun, nofun⟩
  | ok b => exact Iff.rfl

section Growth

variable (hx : r.Extends r') (h : r.WellFormed) (h' : r'.WellFormed) (hscope : r.Knows scope)

include hx h h'

theorem identifier_of_extends {id : Identifier} {t : Ty} (ht : identifier r id = .ok t) :
    identifier r' id = .ok t := by
  unfold identifier at ht ⊢
  split at ht
  · rw [orFault_eq_ok, Option.map_eq_some_iff] at ht ⊢
    obtain ⟨v, hv, rfl⟩ := ht
    exact ⟨v, hx.variableIn?_eq_some hv, rfl⟩
  · rw [orFault_eq_ok, Option.map_eq_some_iff] at ht ⊢
    obtain ⟨f, hf, rfl⟩ := ht
    exact ⟨f, hx.function?_eq_some h h' h.knows_global hf, rfl⟩

include hscope

theorem member_of_extends {owner : String} {type t : Ty} {m : Member}
    (ht : member r scope owner type m = .ok t) : member r' scope owner type m = .ok t := by
  simp only [member, bind_eq_ok, orFault_eq_ok] at ht ⊢
  obtain ⟨struct, hstruct, ht⟩ := ht
  refine ⟨struct, hstruct, ?_⟩
  cases hf : r.fields? scope struct with
  | error f =>
      simp only [hf, bind_eq_ok] at ht
      obtain ⟨_, hfault, _⟩ := ht
      cases hfault
  | ok found =>
      simp only [hf, bind_eq_ok, orFault_eq_ok] at ht
      obtain ⟨fields, rfl, hm⟩ := ht
      simp only [hx.fields?_eq_some h h' hscope hf, bind_eq_ok, orFault_eq_ok]
      exact ⟨fields, rfl, hm⟩

theorem members_of_extends {ms : List Member} {owner : String} {type t : Ty}
    (ht : members r scope owner type ms = .ok t) : members r' scope owner type ms = .ok t := by
  induction ms generalizing owner type with
  | nil => exact ht
  | cons m ms ih =>
      simp only [members, bind_eq_ok] at ht ⊢
      obtain ⟨u, hu, ht⟩ := ht
      exact ⟨u, member_of_extends hx h h' hscope hu, ih ht⟩

theorem result_of_extends {c : Call} {t : Ty} (ht : result r scope c = .ok t) :
    result r' scope c = .ok t := by
  unfold result at ht ⊢
  split at ht
  · rw [orFault_eq_ok, Option.map_eq_some_iff] at ht ⊢
    obtain ⟨f, hf, rfl⟩ := ht
    exact ⟨f, hx.function?_eq_some h h' hscope hf, rfl⟩
  · rename_i internal id _
    cases hv : r.variableIn? id internal with
    | none => simp only [hv] at ht; cases ht
    | some v => simpa only [hv, hx.variableIn?_eq_some hv] using ht
  · cases ht

theorem infer_of_extends {e : Expr} {t : Ty} (ht : infer r scope e = .ok t) :
    infer r' scope e = .ok t := by
  fun_induction infer r scope e generalizing t with
  | case1 | case3 | case10 | case11 | case13 => exact ht
  | case2 id => exact identifier_of_extends hx h h' ht
  | case4 base ms =>
      simp only [infer, bind_eq_ok] at ht ⊢
      obtain ⟨u, hu, ht⟩ := ht
      exact ⟨u, identifier_of_extends hx h h' hu, members_of_extends hx h h' hscope ht⟩
  | case5 array index span ih =>
      simp only [infer, bind_eq_ok] at ht ⊢
      obtain ⟨u, hu, ht⟩ := ht
      exact ⟨u, ih hu, ht⟩
  | case6 c => exact result_of_extends hx h h' hscope ht
  | case7 op lhs rhs span ihl ihr =>
      simp only [infer, bind_eq_ok] at ht ⊢
      obtain ⟨l, hl, u, hu, ht⟩ := ht
      exact ⟨l, ihl hl, u, ihr hu, ht⟩
  | case8 op operand span ih =>
      simp only [infer, bind_eq_ok] at ht ⊢
      obtain ⟨u, hu, ht⟩ := ht
      exact ⟨u, ih hu, ht⟩
  | case9 op target value span ih => exact ih ht
  | case12 e es span ih =>
      simp only [infer, bind_eq_ok] at ht ⊢
      obtain ⟨u, hu, ht⟩ := ht
      exact ⟨u, ih hu, ht⟩

theorem suits_of_extends {target : Ty} {value : Expr} {b : Bool}
    (hb : suits r scope target value = .ok b) : suits r' scope target value = .ok b := by
  simp only [suits, bind_eq_ok] at hb ⊢
  obtain ⟨u, hu, hb⟩ := hb
  exact ⟨u, infer_of_extends hx h h' hscope hu, hb⟩

end Growth

mutual

theorem coerces_of_extends (hx : r.Extends r') (h : r.WellFormed) (h' : r'.WellFormed)
    (hscope : r.Knows scope) {target : Ty} {value : Expr} {b : Bool}
    (hb : coerces r scope target value = .ok b) : coerces r' scope target value = .ok b := by
  unfold coerces at hb ⊢
  split at hb
  · exact hb
  · split at hb
    · exact coercesAll_of_extends hx h h' hscope hb
    · exact suits_of_extends hx h h' hscope hb

theorem coercesAll_of_extends (hx : r.Extends r') (h : r.WellFormed) (h' : r'.WellFormed)
    (hscope : r.Knows scope) {target : Ty} {values : List Expr} {b : Bool}
    (hb : coercesAll r scope target values = .ok b) :
    coercesAll r' scope target values = .ok b := by
  cases values with
  | nil => simpa only [coercesAll] using hb
  | cons e es =>
      simp only [coercesAll, bind_eq_ok] at hb ⊢
      obtain ⟨first, hfirst, hb⟩ := hb
      refine ⟨first, coerces_of_extends hx h h' hscope hfirst, ?_⟩
      cases first with
      | true => exact coercesAll_of_extends hx h h' hscope hb
      | false => exact hb

end

/-- Whatever operations succeed later, an expression that has a type keeps it, and what is known of whether a slot
takes it stays so. -/
theorem typing_lasts (h : r.WellFormed) (later : r.LeadsTo r') (hscope : r.Knows scope) (e : Expr) :
    (∀ t, infer r scope e = .ok t → infer r' scope e = .ok t) ∧
      ∀ target takes, coerces r scope target e = .ok takes → coerces r' scope target e = .ok takes := by
  have h' := later.wellFormed h
  exact ⟨fun _ => infer_of_extends later.grows h h' hscope, fun _ _ => coerces_of_extends later.grows h h' hscope⟩

/-- The sum of a field behind an alias and of a call, seen from a function in which the variable is hidden later,
while another function and another struct are entered. -/
theorem typing_lasts_hidden :
    let at₀ : Span := .ofLength 0 1 0
    let sym (name internal : String) : Symbol := ⟨name, internal, at₀⟩
    let i64 : Ty := .ofPrimitive .i64
    let f (param result : Ty) (internal : String) : Overload := ⟨sym "f" internal, [param], result, {}⟩
    let r₁ := (Registry.empty.perform (.defineStruct 0 ⟨sym "Q" "Q", .alias (sym "P" "P")⟩)).2
    let r₂ := (r₁.perform (.defineStruct 0 ⟨sym "P" "P", .fields [⟨"a", i64⟩]⟩)).2
    let r₃ := (r₂.perform (.defineFunction (f (.ofPrimitive .i32) i64 "f(i32)"))).2
    let r₄ := (r₃.perform (.defineVariable 0 ⟨sym "p" "p", .named "Q" .plain⟩)).2
    let r₅ := (r₄.perform (.openScope 0 .function)).2
    let hides : Operation := .defineVariable 1 ⟨sym "p" "p", .bool⟩
    let overloads : Operation := .defineFunction (f i64 .bool "f(i64)")
    let adds : Operation := .defineStruct 0 ⟨sym "R" "R", .fields [⟨"a", .bool⟩]⟩
    let s₁ := (r₅.perform hides).2
    let s₂ := (s₁.perform overloads).2
    let s₃ := (s₂.perform adds).2
    let e : Expr := .binary (.arithmetic .add) (.member ⟨"p", .variable "p" 0, at₀⟩ [⟨"a", at₀⟩] at₀)
      (.call ⟨"f", "f", [.literal (.integer 1 false) at₀], [.ofPrimitive .i32], .function "f(i32)", 1, at₀⟩) at₀
    r₅.WellFormed ∧ r₅.LeadsTo s₃ ∧ r₅.Knows 1 ∧
      (∃ t, t.kind? = some .i64 ∧ infer r₅ 1 e = .ok t ∧ infer s₃ 1 e = .ok t) ∧
      coerces r₅ 1 i64 e = .ok true ∧ coerces s₃ 1 i64 e = .ok true := by
  intro at₀ sym i64 f r₁ r₂ r₃ r₄ r₅ hides overloads adds s₁ s₂ s₃ e
  have h₁ : Registry.Reachable r₁ := .perform .empty (by rintro _ ⟨⟩; decide)
  have h₂ : Registry.Reachable r₂ := .perform h₁ (by rintro _ ⟨⟩; decide)
  have h₃ : Registry.Reachable r₃ := .perform h₂ (by rintro _ ⟨⟩)
  have h₄ : Registry.Reachable r₄ := .perform h₃ (by rintro _ ⟨⟩; decide)
  have h₅ : Registry.Reachable r₅ := .perform h₄ (by rintro _ ⟨⟩; decide)
  have known : r₅.Knows 1 := by decide
  have later₁ : r₅.LeadsTo s₁ := .step hides .refl (by rintro _ ⟨⟩; decide) (Registry.perform_eq_ok (by decide +kernel))
  have later₂ : r₅.LeadsTo s₂ := .step overloads later₁ (by rintro _ ⟨⟩) (Registry.perform_eq_ok (by decide +kernel))
  have later₃ : r₅.LeadsTo s₃ := .step adds later₂ (by rintro _ ⟨⟩; decide) (Registry.perform_eq_ok (by decide +kernel))
  have typed : (infer r₅ 1 e).toOption.bind Ty.kind? = some .i64 := by decide +kernel
  have taken : (coerces r₅ 1 i64 e).toOption = some true := by decide +kernel
  obtain ⟨t, before, kind⟩ := Option.bind_eq_some_iff.mp typed
  obtain ⟨type, takes⟩ := typing_lasts h₅.wellFormed later₃ known e
  have before := toOption_eq_some.mp before
  have taken := toOption_eq_some.mp taken
  exact ⟨h₅.wellFormed, later₃, known, ⟨t, kind, before, type t before⟩, taken, takes i64 true taken⟩

end Typing
end OnePass
