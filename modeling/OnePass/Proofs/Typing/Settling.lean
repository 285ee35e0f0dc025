import OnePass.Proofs.Tree.Occurrence
import OnePass.Typing.Coercion

/-!
The type of an expression is not changed by giving targets to the calls in it that had none: a call
without a target has no type, so where a type was inferred no such call was asked for its own.
-/

namespace OnePass

variable {g : Call → Except Diagnostic Call} {r : Registry} {scope : ScopeId}

theorem Expr.literalValue?_mapCalls {e e' : Expr} (he : e.mapCalls g = .ok e') :
    e'.literalValue? = e.literalValue? := by
  fun_induction Expr.literalValue? e generalizing e' with
  | case1 =>
      cases Expr.becomes he with
      | literal => rfl
  | case2 operand span ih =>
      cases Expr.becomes he with
      | unary ho => rw [Expr.literalValue?, ih ho]
  | case3 e hliteral hnegate =>
      cases Expr.becomes he with
      | literal => exact Expr.literalValue?.eq_3 _ hliteral hnegate
      | @unary op operand =>
          cases op
          case negate => exact (hnegate operand _ rfl).elim
          all_goals rfl
      | identifier | «variadic» | member | index | call | binary | assign | construct | array | lambda => rfl

theorem Expr.array_of_mapCalls {e a' : Expr} {as' : List Expr} {span : Span}
    (he : e.mapCalls g = .ok (.array (a' :: as') span)) : ∃ a as, e = .array (a :: as) span := by
  cases Expr.becomes he with
  | array elements =>
      cases elements with
      | cons => exact ⟨_, _, rfl⟩

namespace Typing

theorem result_mapCalls (hg : Retargets g) {c c' : Call} {t : Ty} (hc : c.mapCalls g = .ok c')
    (ht : result r scope c = .ok t) : result r scope c' = .ok t := by
  obtain ⟨args, target, rfl, _, htarget⟩ := Call.mapCalls_eq_ok hg hc
  have settled : c.target ≠ .deferred := by
    intro deferred
    simp only [result, deferred] at ht
    cases ht
  rw [htarget settled]
  exact ht

theorem infer_mapCalls (hg : Retargets g) {e e' : Expr} {t : Ty} (he : e.mapCalls g = .ok e')
    (ht : infer r scope e = .ok t) : infer r scope e' = .ok t := by
  fun_induction infer r scope e generalizing e' t with
  | case1 | case2 | case3 | case4 | case10 =>
      cases Expr.becomes he
      exact ht
  | case5 array index span ih =>
      cases Expr.becomes he with
      | index harray _ =>
          obtain ⟨u, hu, ht⟩ := bind_eq_ok.mp ht
          exact bind_eq_ok.mpr ⟨u, ih harray hu, ht⟩
  | case6 c =>
      cases Expr.becomes he with
      | call hc => exact result_mapCalls hg hc ht
  | case7 op lhs rhs span ihl ihr =>
      cases Expr.becomes he with
      | binary hlhs hrhs =>
          obtain ⟨l, hl, ht⟩ := bind_eq_ok.mp ht
          obtain ⟨u, hu, ht⟩ := bind_eq_ok.mp ht
          exact bind_eq_ok.mpr ⟨l, ihl hlhs hl, bind_eq_ok.mpr ⟨u, ihr hrhs hu, ht⟩⟩
  | case8 op operand span ih =>
      cases Expr.becomes he with
      | unary hoperand =>
          obtain ⟨u, hu, ht⟩ := bind_eq_ok.mp ht
          exact bind_eq_ok.mpr ⟨u, ih hoperand hu, ht⟩
  | case9 op target value span ih =>
      cases Expr.becomes he with
      | assign _ hvalue => simpa only [infer] using ih hvalue ht
  | case11 =>
      cases Expr.becomes he with
      | array elements =>
          cases elements
          exact ht
  | case12 e es span ih =>
      cases Expr.becomes he with
      | array elements =>
          cases elements with
          | cons hfirst hes =>
              obtain ⟨u, hu, ht⟩ := bind_eq_ok.mp ht
              exact bind_eq_ok.mpr ⟨u, ih hfirst hu, hes.length_eq ▸ ht⟩
  | case13 f =>
      cases Expr.becomes he with
      | lambda hf =>
          obtain ⟨body, rfl, _⟩ := Routine.mapCalls_eq_ok hf
          exact ht

theorem suits_mapCalls (hg : Retargets g) {e e' : Expr} {target : Ty} {b : Bool}
    (he : e.mapCalls g = .ok e') (hb : suits r scope target e = .ok b) :
    suits r scope target e' = .ok b := by
  simp only [suits, bind_eq_ok] at hb ⊢
  obtain ⟨u, hu, hb⟩ := hb
  exact ⟨u, infer_mapCalls hg he hu, hb⟩

mutual

theorem coerces_mapCalls (hg : Retargets g) {e e' : Expr} {target : Ty} {b : Bool}
    (he : e.mapCalls g = .ok e') (hb : coerces r scope target e = .ok b) :
    coerces r scope target e' = .ok b := by
  unfold coerces at hb ⊢
  have literal : literalFits? target e' = literalFits? target e := by
    simp only [literalFits?, Expr.literalValue?_mapCalls he]
  rw [literal]
  split at hb
  · exact hb
  · split at hb
    · cases Expr.becomes he with
      | array elements =>
          cases elements with
          | cons hfirst hes => exact coercesAll_mapCalls hg (.cons hfirst hes) hb
    · rename_i other
      split
      · obtain ⟨a, as, rfl⟩ := Expr.array_of_mapCalls he
        exact (other _ _ _ _ _ _ rfl rfl).elim
      · exact suits_mapCalls hg he hb

theorem coercesAll_mapCalls (hg : Retargets g) {es es' : List Expr} {target : Ty} {b : Bool}
    (hes : List.Forall₂ (fun e e' => e.mapCalls g = .ok e') es es')
    (hb : coercesAll r scope target es = .ok b) : coercesAll r scope target es' = .ok b := by
  cases hes with
  | nil => exact hb
  | cons he hes =>
      simp only [coercesAll, bind_eq_ok] at hb ⊢
      obtain ⟨first, hfirst, hb⟩ := hb
      refine ⟨first, coerces_mapCalls hg he hfirst, ?_⟩
      cases first with
      | true => exact coercesAll_mapCalls hg hes hb
      | false => exact hb

end

end Typing
end OnePass
