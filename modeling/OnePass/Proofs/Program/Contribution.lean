import OnePass.Proofs.Program.Recheck
import OnePass.Proofs.Ty.Acceptance
import OnePass.Proofs.Typing.Conformance
import OnePass.Tree.Declarations

/-!
The types that declarations contribute. What an accepted declaration contributes is its own type or, for a
number, the wider of its own and that of the number. There is one sort of declaration that is accepted and has
nothing to contribute: the elements of an array go into its type one by one, but the array is inferred another
type, and two types of arrays have none that both are unified to.
-/

namespace OnePass

open Typing

/-! ### Dominant types -/

namespace Ty

variable {t u : Ty}

theorem isInteger_of_range? {k : Primitive} {r : Int × Int} (hkind : t.kind? = some k)
    (hrange : k.range? = some r) : t.isInteger = true := by
  rw [isInteger, hkind, Option.any_some]
  by_contra hk
  rw [Primitive.range?, if_neg hk] at hrange
  cases hrange

/-- Two numbers of one sort are unified to the wider one, if neither is a pointer. -/
theorem dominant_of_sort
    (hsort : t.isInteger = true ∧ u.isInteger = true ∨ t.isFloat = true ∧ u.isFloat = true)
    (ht : t.isPointer = false) (hu : u.isPointer = false) :
    t.dominant u = .ok (if t.width < u.width then u.rvalue else t.rvalue) := by
  cases t <;> cases u <;> simp only [isInteger, isFloat, kind?, Option.any_none, Option.any_some, reduceCtorEq,
    and_false, false_and, or_self] at hsort
  simp [dominant, dominantPrimitive, ht, hu, hsort]

theorem dominant_of_widens (h : t.widens u = true) : t.dominant u = .ok t.rvalue := by
  obtain ⟨hsort, ht, hu, hwidth⟩ := widens_iff.mp h
  rw [dominant_of_sort hsort ht hu, if_neg (Nat.not_lt.mpr (Nat.le_of_lt hwidth))]

theorem dominant_arrays {q e : Ty} {l m : Nat} {f g : Flags} (hf : f.pointer = false) (hg : g.pointer = false) :
    (array q l f).dominant (array e m g) = .error (.noDominantType (array q l f) (array e m g)) := by
  simp [dominant, isPointer, flags, hf, hg]

/-- A pointer on the left prevails over what is not one. -/
theorem dominant_of_isPointer (ht : t.isPointer = true) (hu : u.isPointer = false) :
    t.dominant u = .ok t.rvalue := by
  simp [dominant, ht, hu]

theorem agrees_rvalue (t : Ty) : t.rvalue.agrees t = true := t.agrees_setFlags_self _

end Ty

/-! ### Declarations -/

/-- The initial value is an array whose first element is not of the type that its elements are declared to have.
A pointer to an array does not count. -/
def VarDecl.Spreads (reg : Registry) (d : VarDecl) : Prop :=
  ∃ e es span q l f t, d.value = some (.array (e :: es) span) ∧ d.type = .array q l f ∧ f.pointer = false ∧
    infer reg d.scope e = .ok t ∧ q.agrees t = false

namespace Typing

variable {reg : Registry} {d : VarDecl} {v : Expr} {u : Ty}

theorem declaration_of_agrees (hv : d.value = some v) (hu : infer reg d.scope v = .ok u)
    (h : d.type.agrees u = true) : declaration reg d = .ok d.type := by
  simp only [declaration, hv, hu, bind, Except.bind, if_pos h]
  rfl

section Dominant

variable (hv : d.value = some v) (hu : infer reg d.scope v = .ok u) (h : d.type.agrees u = false)

include hv hu h

theorem declaration_of_dominant {t : Ty} (ht : d.type.dominant u = .ok t) : declaration reg d = .ok t := by
  simp only [declaration, hv, hu, bind, Except.bind, if_neg (Bool.eq_false_iff.mp h), ht]
  rfl

theorem declaration_of_error {f : Fault} (hf : d.type.dominant u = .error f) : declaration reg d = fault f := by
  simp only [declaration, hv, hu, bind, Except.bind, if_neg (Bool.eq_false_iff.mp h), hf]

end Dominant

/-- If the value is an array whose elements alone go into those declared, there is nothing to contribute. -/
theorem declaration_of_spreads (h : d.Spreads reg) :
    ∃ v u, d.value = some v ∧ infer reg d.scope v = .ok u ∧
      declaration reg d = fault (.noDominantType d.type u) := by
  obtain ⟨e, es, span, q, l, f, t, hv, htype, hpointer, ht, hagrees⟩ := h
  have hu : infer reg d.scope (.array (e :: es) span) = .ok (.array t (es.length + 1) .plain) := by
    rw [infer, ht]
    rfl
  refine ⟨_, _, hv, hu, declaration_of_error hv hu ?_ ?_⟩ <;> rw [htype]
  · rw [Ty.agrees_array, hagrees]
  · exact Ty.dominant_arrays hpointer rfl

/-- The number is wider than the type declared for it, and contributes its own type. -/
def Outgrows (reg : Registry) (d : VarDecl) (t : Ty) : Prop :=
  ∃ v n, d.value = some v ∧ v.literalValue? = some n ∧ infer reg d.scope v = .ok t ∧ d.type.width < t.width

/-- Otherwise a declaration whose type takes its value contributes a type: its own, unless the value is a number
with a wider one. -/
theorem declaration_of_coerces (hv : d.value = some v) (htakes : coerces reg d.scope d.type v = .ok true)
    (hspreads : ¬d.Spreads reg) :
    ∃ t, declaration reg d = .ok t ∧ (t.agrees d.type = true ∨ Outgrows reg d t) := by
  obtain ⟨u, hu⟩ := infer_of_coerces htakes
  cases hagrees : d.type.agrees u with
  | true => exact ⟨d.type, declaration_of_agrees hv hu hagrees, .inl d.type.agrees_refl⟩
  | false =>
      have contributes {t : Ty} := declaration_of_dominant hv hu hagrees (t := t)
      cases takes_of_coerces htakes with
      | literal hn hpointer hkind hrange _ =>
          obtain ⟨size, hsize, hinfer⟩ := infer_of_literalValue? reg d.scope hn
          obtain ⟨k, _, _, htype, hk, _⟩ := literal_range hsize
          obtain rfl : .ofPrimitive k = u := htype.symm.trans (Except.ok.inj (hinfer.symm.trans hu))
          have unified := contributes (Ty.dominant_of_sort
            (.inl ⟨Ty.isInteger_of_range? hkind hrange, Ty.isInteger_of_range? rfl hk⟩) hpointer rfl)
          split at unified
          · rename_i hwider
            exact ⟨_, unified, .inr ⟨v, _, hv, hn, hu, hwider⟩⟩
          · exact ⟨_, unified, .inl (Ty.agrees_rvalue _)⟩
      | @array q l f e es span hslot hvalue _ =>
          subst hvalue
          obtain ⟨t, ht, hlist⟩ := bind_eq_ok.mp hu
          obtain rfl := Except.ok.inj hlist
          rw [hslot, Ty.agrees_array] at hagrees
          have pointer : d.type.isPointer = true := by
            by_contra hplain
            rw [hslot, Bool.not_eq_true] at hplain
            exact hspreads ⟨e, es, span, q, l, f, t, hv, hslot, hplain, ht, hagrees⟩
          exact ⟨_, contributes (Ty.dominant_of_isPointer pointer rfl), .inl (Ty.agrees_rvalue _)⟩
      | type _ hinfer haccepts =>
          obtain rfl := Except.ok.inj (hu.symm.trans hinfer)
          have hwidens : d.type.widens u = true := by simpa [Ty.accepts, hagrees] using haccepts
          exact ⟨_, contributes (Ty.dominant_of_widens hwidens), .inl (Ty.agrees_rvalue _)⟩

theorem declaration_of_initializes (hv : d.value = some v) (h : Initializes reg d.scope d.type v)
    (hspreads : ¬d.Spreads reg) :
    ∃ t, declaration reg d = .ok t ∧ (t.agrees d.type = true ∨ Outgrows reg d t) := by
  rcases h with htakes | ⟨u, hu, hagrees⟩
  · exact declaration_of_coerces hv htakes hspreads
  · exact ⟨d.type, declaration_of_agrees hv hu hagrees, .inl d.type.agrees_refl⟩

end Typing

/-! ### Programs -/

/-- A declaration contributes its own type or that of a number that outgrows it, unless its value is an array
whose elements alone go into those declared. Then it contributes none. -/
def Node.Contributes (reg : Registry) : Node → Prop
  | .stmt (.variable d) =>
    (¬d.Spreads reg → ∃ t, declaration reg d = .ok t ∧ (t.agrees d.type = true ∨ Outgrows reg d t)) ∧
      (d.Spreads reg → ∃ v u, d.value = some v ∧ infer reg d.scope v = .ok u ∧
        declaration reg d = fault (.noDominantType d.type u))
  | _ => True

theorem Node.Checks.contributes {reg : Registry} {site : Site} {n : Node} (h : n.Checks reg site) :
    n.Contributes reg := by
  unfold Node.Contributes
  split
  · rename_i d
    refine ⟨fun hspreads => ?_, declaration_of_spreads⟩
    obtain ⟨_, hvalue⟩ := h
    cases hv : d.value with
    | none => exact ⟨d.type, by simp only [declaration, hv], .inl d.type.agrees_refl⟩
    | some v => exact declaration_of_initializes hv (hvalue v hv) hspreads
  · trivial

namespace Registry

/-- In an accepted program each declaration contributes a type, but for those of arrays that are wider than their
elements. -/
theorem read_contributes {reg reg' : Registry} {source : Source} {p : Program} (h : reg.WellFormed)
    (hread : reg.read source = (.ok p, reg')) :
    Every (fun _ n => n.Contributes reg') {} (.block p.body) := by
  obtain ⟨_, settled⟩ := read_settled (.ofWellFormed h) rfl (fun _ _ _ _ => trivial) hread
  exact (settled p rfl).imp fun _ _ hn => hn.checks.contributes

/-- The array has nothing to contribute, the number outgrows its type, and the last value does not. -/
theorem read_contributes_arrays :
    let source : Source := ⟨0, "unit.st",
      "let a: i64[] = [1, 2]; fn f(): void \x7b let b: i8 = 3; let c: i64 = b; \x7d"⟩
    ∃ p reg, Registry.empty.read source = (.ok p, reg) ∧
      p.body.declarations.map (fun d => (declaration reg d).toOption.map Ty.kind?) =
        [none, some (some .i32), some (some .i64)] ∧
      Every (fun _ n => n.Contributes reg) {} (.block p.body) := by
  intro source
  obtain ⟨p, reg, hread, hdeclarations⟩ := exists_of_read .empty source (by rfl)
    (fun p reg => p.body.declarations.map fun d => (declaration reg d).toOption.map Ty.kind?)
    (x := [none, some (some .i32), some (some .i64)]) (by decide +kernel)
  exact ⟨p, reg, hread, hdeclarations, read_contributes .empty hread⟩

end Registry
end OnePass
