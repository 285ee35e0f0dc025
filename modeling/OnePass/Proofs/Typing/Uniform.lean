import OnePass.Grammar.Declarations
import OnePass.Proofs.Grammar.Gives
import OnePass.Proofs.Typing.Check
import OnePass.Proofs.Typing.Conformance

/-!
Inference and checking side by side. A slot of the type that is inferred for a value takes the value, unless
one of two things is the matter with it: it is a negative number that was given a type without negative
numbers for its size, or it is an array with an element that does not go where the first does. A declaration
without a type looks for neither.
-/

namespace OnePass
namespace Typing

variable {reg : Registry} {scope : ScopeId}

/-- The type inferred for the value is right for all of it: elements go where the first of them does, and so
on inside that one; a number is not so far below zero that its type has no room for it. -/
def Uniform (reg : Registry) (scope : ScopeId) : Expr → Prop
  | .array (e :: es) _ =>
    Uniform reg scope e ∧
      ∀ t, infer reg scope e = .ok t → ∀ e' ∈ es, coerces reg scope t e' = .ok true
  | e => ∀ n, e.literalValue? = some n → -twoTo 63 < n ∧ n < twoTo 64

theorem coerces_iff_uniform {e : Expr} {t : Ty} (ht : infer reg scope e = .ok t) :
    coerces reg scope t e = .ok true ↔ Uniform reg scope e := by
  fun_induction Uniform reg scope e generalizing t with
  | case1 e es span ih =>
      obtain ⟨u, hu, ht⟩ := bind_eq_ok.mp ht
      obtain rfl := Except.ok.inj ht
      rw [coerces_array_iff, ih hu]
      refine and_congr_right fun _ => ⟨fun hall v hv => ?_, fun hall => hall u hu⟩
      exact Except.ok.inj (hu.symm.trans hv) ▸ hall
  | case2 e other =>
      cases hv : e.literalValue? with
      | some n =>
          obtain ⟨size, hsize, hinfer⟩ := infer_of_literalValue? reg scope hv
          obtain ⟨k, least, greatest, htype, hrange, _, hbounds⟩ := literal_range hsize
          obtain rfl : .ofPrimitive k = t := htype.symm.trans (Except.ok.inj (hinfer.symm.trans ht))
          rw [coerces_iff_range hv rfl rfl hrange, hbounds]
          simp only [Option.some.injEq, forall_eq']
      | none =>
          have literal : literalFits? t e = none := by simp [literalFits?, hv]
          rw [coerces_eq_suits literal fun _ _ _ e' es span _ he => other e' es span he, suits_iff ht, Ty.accepts,
            t.agrees_refl]
          simp

theorem coerces_rvalue (t : Ty) (e : Expr) : coerces reg scope t.rvalue e = coerces reg scope t e :=
  coerces_setFlags (by simp [Flags.diff, Flags.binding, Ty.isPointer])
    (by simp [Flags.diff, Flags.binding, Ty.isOptional]) e

theorem Setting.checkDeclaration_iff {s : Setting} {type t : Ty} {span : Span} {e : Expr}
    (ht : Typing.infer s.reg s.scope e = .ok t) :
    s.checkDeclaration type span e = .ok () ↔ Typing.coerces s.reg s.scope type e = .ok true := by
  refine ⟨coerces_of_checkDeclaration, fun htakes => ?_⟩
  unfold checkDeclaration
  rw [infer_eq_ok.mpr ht, htakes]
  rfl

end Typing

namespace Grammar

open Typing

variable {reg : Registry} {ctx : Context} {name : Token} {isMutable : Bool} {e : Expr} {t : Ty}

theorem run_check {α : Type} (test : Setting → Except Diagnostic α) :
    (ctx.check test : Parse α).run.run reg = (test ⟨reg, ctx.scope, ctx.source⟩, reg) :=
  rfl

/-- Without a type of its own, a variable gets that of its initial value. -/
theorem variableType_inferred (ht : infer reg ctx.scope e = .ok t) (hinformative : isUninformative t = false) :
    (variableType ctx name isMutable none (some e) : Parse Ty).run.run reg = (.ok t.rvalue, reg) := by
  unfold variableType
  dsimp only
  rw [run_bind, run_check, Setting.infer_eq_ok.mpr ht]
  dsimp only
  rw [if_neg (by simp [hinformative])]
  rfl

/-- With a type of its own, a variable keeps it if the check is passed. -/
theorem variableType_given {type : Ty} {span : Span} :
    (variableType ctx name isMutable (some (type, span)) (some e) : Parse Ty).run.run reg = (.ok type, reg) ↔
      Setting.checkDeclaration ⟨reg, ctx.scope, ctx.source⟩ type span e = .ok () := by
  unfold variableType
  dsimp only
  rw [run_bind, run_check]
  cases Setting.checkDeclaration ⟨reg, ctx.scope, ctx.source⟩ type span e with
  | ok _ => exact ⟨fun _ => rfl, fun _ => rfl⟩
  | error d => exact ⟨fun h => (by cases h), fun h => (by cases h)⟩

/-- What is inferred for a value takes the value if and only if the value is uniform. A declaration without a type
that is accepted is so with the inferred type written out if and only if its value is uniform. -/
theorem variableType_given_inferred {reg : Registry} {scope : ScopeId} {e : Expr} {t : Ty}
    (ht : infer reg scope e = .ok t) :
    (coerces reg scope t e = .ok true ↔ Uniform reg scope e) ∧
      ∀ (ctx : Context) (name : Token) (isMutable : Bool) (span : Span), ctx.scope = scope →
        isUninformative t = false →
          (variableType ctx name isMutable none (some e) : Parse Ty).run.run reg = (.ok t.rvalue, reg) ∧
          ((variableType ctx name isMutable (some (t.rvalue, span)) (some e) : Parse Ty).run.run reg =
              (.ok t.rvalue, reg) ↔
            Uniform reg scope e) := by
  refine ⟨coerces_iff_uniform ht, ?_⟩
  rintro ctx name isMutable span rfl hinformative
  refine ⟨variableType_inferred ht hinformative, ?_⟩
  rw [variableType_given, Setting.checkDeclaration_iff ht, coerces_rvalue, coerces_iff_uniform ht]

/-- An array of a number and a text, and the least number of 64 bits: as initial values both are accepted without a
type, and with the type that is inferred for them they are not. -/
theorem variableType_given_inferred_mixed :
    let span : Span := ⟨0, 0, 0⟩
    let mixed : Expr := .array [.literal (.integer 1 false) span, .literal (.string "x") span] span
    let least : Expr := .unary .negate (.literal (.integer 9223372036854775808 false) span) span
    let declared (given : Option (Ty × Span)) (e : Expr) : Except Diagnostic Ty × Registry :=
      (variableType { source := ⟨0, "unit.st", ""⟩ } ⟨.identifier, "a", span⟩ true given (some e) :
        Parse Ty).run.run .empty
    let numbers : Ty := .array (.ofPrimitive .i32) 2 .plain
    (¬Uniform .empty Registry.global mixed ∧ declared none mixed = (.ok numbers, .empty) ∧
      declared (some (numbers, span)) mixed ≠ (.ok numbers, .empty)) ∧
    ¬Uniform .empty Registry.global least ∧ declared none least = (.ok (.ofPrimitive .u64), .empty) ∧
      declared (some (.ofPrimitive .u64, span)) least ≠ (.ok (.ofPrimitive .u64), .empty) := by
  intro span mixed least declared numbers
  have checked {e : Expr} {t : Ty} (ht : infer .empty Registry.global e = .ok t)
      (hrefused : coerces .empty Registry.global t e = .ok false) (hrvalue : t.rvalue = t)
      (hinformative : isUninformative t = false) :
      ¬Uniform .empty Registry.global e ∧ declared none e = (.ok t, .empty) ∧
        declared (some (t, span)) e ≠ (.ok t, .empty) := by
    obtain ⟨huniform, hdeclared⟩ := variableType_given_inferred ht
    have mixed : ¬Uniform .empty Registry.global e := by
      rw [← huniform, hrefused]
      rintro ⟨⟩
    obtain ⟨hnone, hsome⟩ := hdeclared { source := ⟨0, "unit.st", ""⟩ } ⟨.identifier, "a", span⟩ true span rfl
      hinformative
    rw [hrvalue] at hnone hsome
    exact ⟨mixed, hnone, fun h => mixed (hsome.mp h)⟩
  exact ⟨checked rfl rfl rfl rfl, checked rfl rfl rfl rfl⟩

end Grammar
end OnePass
