import OnePass.Proofs.Registry.Types
import OnePass.Proofs.Typing.Check
import OnePass.Resolution

/-!
How calls get their targets. A target is either a function that is known by the name of the call and the types
of the arguments, and then no parameter is asked, or one whose parameters take the arguments. It stays so as the
registry grows and the calls among the arguments get targets of their own.
-/

namespace OnePass

open Typing

/-- The types of the parameters, if the type is that of a function. -/
def Ty.params? : Ty → Option (List Ty)
  | .function params _ _ => some params
  | _ => none

theorem Ty.function_of_params? {t : Ty} {params : List Ty} (h : t.params? = some params) :
    ∃ ps result flags, t = .function ps result flags := by
  cases t <;> cases h
  exact ⟨_, _, _, rfl⟩

namespace Registry

variable {r r' : Registry} {c c' : Call} {t : Target}

/-- The types of the parameters of what a call calls. -/
def expects? (r : Registry) (scope : ScopeId) : Target → Option (List Ty)
  | .function internal => (r.function? scope internal).map (·.params)
  | .variable internal id => (r.variableIn? id internal).bind (·.type.params?)
  | .deferred => none

/-- Why a call goes to a target: the function is known by a name of the call and the types of the arguments, or
the parameters take the arguments. -/
inductive Chooses (r : Registry) (c : Call) (t : Target) : Prop where
  | types {name : String} {f : Overload} (callee : name ∈ r.calleeNames c)
      (target : t = .function (Name.overload name c.argTypes false))
      (found : r.function? c.scope (Name.overload name c.argTypes false) = some f)
  | takes {params : List Ty} (expects : r.expects? c.scope t = some params)
      (each : coercesEach r c.scope params c.args = .ok true)

/-! ### Targets and the parameters they have -/

theorem coercesEach_of_argumentsFit {scope : ScopeId} {params : List Ty} {isVariadic : Bool}
    {args : List Expr} (h : argumentsFit r scope params isVariadic args = .ok true) :
    coercesEach r scope params args = .ok true := by
  unfold argumentsFit at h
  split at h
  · exact h
  · cases h

theorem expects?_of_function? {scope : ScopeId} {internal : String} {f : Overload}
    (h : r.function? scope internal = some f) : r.expects? scope (.function internal) = some f.params := by
  rw [expects?, h, Option.map_some]

section Target

variable (h : r.WellFormed) (hid : r.Knows c.scope)

theorem chooses_of_exactTarget? {names : List String} (hnames : ∀ name ∈ names, name ∈ r.calleeNames c)
    (ht : r.exactTarget? c names = .ok (some t)) : r.Chooses c t := by
  induction names with
  | nil => cases ht
  | cons name names ih =>
      obtain ⟨hname, hnames⟩ := List.forall_mem_cons.mp hnames
      simp only [exactTarget?] at ht
      split at ht
      · rename_i hf
        obtain rfl := Option.some.inj (Except.ok.inj ht)
        obtain ⟨f, hf⟩ := Option.isSome_iff_exists.mp hf
        exact .types hname rfl hf
      · split at ht
        · rename_i bare hbare
          obtain ⟨fits, hfits, ht⟩ := bind_eq_ok.mp ht
          cases fits with
          | true =>
              obtain rfl := Option.some.inj (Except.ok.inj ht)
              exact .takes (expects?_of_function? hbare) (coercesEach_of_argumentsFit hfits)
          | false => exact ih hnames ht
        · exact ih hnames ht

include h

theorem chooses_of_variableTarget? (ht : r.variableTarget? c = .ok (some t)) : r.Chooses c t := by
  unfold variableTarget? at ht
  split at ht
  · cases ht
  · split at ht
    · rename_i a symbol params result flags hv
      obtain ⟨fits, hfits, ht⟩ := bind_eq_ok.mp ht
      cases fits with
      | true =>
          obtain rfl := Option.some.inj (Except.ok.inj ht)
          refine .takes ?_ (coercesEach_of_argumentsFit hfits)
          rw [expects?, variableIn?_of_resolveVariable? h hv]
          rfl
      | false => cases ht
    · cases ht

include hid

theorem chooses_of_onlyTarget? {names : List String} (ht : r.onlyTarget? c names = .ok (some t)) :
    r.Chooses c t := by
  induction names with
  | nil => cases ht
  | cons name names ih =>
      obtain ⟨fs, hfs, ht⟩ := bind_eq_ok.mp ht
      split at ht
      · exact ih ht
      · rename_i f
        obtain rfl := Option.some.inj (Except.ok.inj ht)
        obtain ⟨hnamed, hfits⟩ := ((filterM_eq_ok hfs).2 f).mp (List.mem_singleton_self f)
        have found := h.function?_of_mem hid (List.mem_filter.mp hnamed).1
        exact .takes (expects?_of_function? found) (coercesEach_of_argumentsFit hfits)
      · cases ht

theorem chooses_of_target? (ht : r.target? c = .ok (some t)) : r.Chooses c t := by
  obtain ⟨direct, hdirect, ht⟩ := bind_eq_ok.mp ht
  cases direct with
  | some u =>
      obtain rfl := Option.some.inj (Except.ok.inj ht)
      exact chooses_of_exactTarget? (fun _ hname => hname) hdirect
  | none =>
      obtain ⟨held, hheld, ht⟩ := bind_eq_ok.mp ht
      cases held with
      | some u =>
          obtain rfl := Option.some.inj (Except.ok.inj ht)
          exact chooses_of_variableTarget? h hheld
      | none => exact chooses_of_onlyTarget? h hid ht

end Target

theorem Extends.expects?_eq_some (hx : r.Extends r') (h : r.WellFormed) (h' : r'.WellFormed) {scope : ScopeId}
    (hscope : r.Knows scope) {params : List Ty} (he : r.expects? scope t = some params) :
    r'.expects? scope t = some params := by
  cases t with
  | function =>
      obtain ⟨f, hf, rfl⟩ := Option.map_eq_some_iff.mp he
      exact expects?_of_function? (hx.function?_eq_some h h' hscope hf)
  | «variable» =>
      obtain ⟨v, hv, hparams⟩ := Option.bind_eq_some_iff.mp he
      rw [expects?, hx.variableIn?_eq_some hv]
      exact hparams
  | deferred => cases he

/-- The target that a call has is not looked at. -/
theorem Chooses.retarget {target : Target} (hc : r.Chooses c t) : r.Chooses { c with target } t := by
  cases hc with
  | types callee htarget found => exact .types callee htarget found
  | takes expects each => exact .takes expects each

/-- A target that was chosen is still chosen for the same reason, when the arguments have been settled. -/
theorem Chooses.later {g : Call → Except Diagnostic Call} (hc : r.Chooses c t) (hx : r.Extends r')
    (h : r.WellFormed) (h' : r'.WellFormed) (hid : r.Knows c.scope) (hg : Retargets g) {args : List Expr}
    {target : Target} (hargs : List.Forall₂ (fun e e' => e.mapCalls g = .ok e') c.args args) :
    r'.Chooses { c with args, target } t := by
  cases hc with
  | types callee htarget found =>
      refine .types ?_ htarget (hx.function?_eq_some h h' hid found)
      rw [calleeNames, h.qualify_eq hx hid]
      exact callee
  | takes expects each =>
      exact .takes (hx.expects?_eq_some h h' hid expects) (coercesEach_later hx h h' hid hg hargs each)

theorem AllTypes.expects? {P : Ty → Prop} (hP : Ty.Hereditary P) (h : r.AllTypes P) {scope : ScopeId}
    {params : List Ty} (he : r.expects? scope t = some params) : ∀ p ∈ params, P p := by
  cases t with
  | function =>
      obtain ⟨f, hf, rfl⟩ := Option.map_eq_some_iff.mp he
      exact (h.function? hf).1
  | «variable» =>
      obtain ⟨⟨symbol, type⟩, hv, hparams⟩ := Option.bind_eq_some_iff.mp he
      have held : P type := h.variableIn? hv
      cases type <;> cases hparams
      exact (hP.function.mp held).1
  | deferred => cases he

end Registry
end OnePass
