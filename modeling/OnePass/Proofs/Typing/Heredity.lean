import OnePass.Proofs.Registry.Types
import OnePass.Proofs.Tree.Occurrence
import OnePass.Proofs.Typing.Stability

/-!
What the types of expressions are made of. A property that types share with their parts goes over to the type
of an expression from the types in the registry and from those that the expression brings with it: that of a
struct it makes, and that of a function without a name.
-/

namespace OnePass

/-- The type that a part of a tree brings with it has a property, its own parts aside. -/
def Node.Brings (P : Ty → Prop) : Node → Prop
  | .expr (.construct _ internal _ _) => P (.named internal .plain)
  | .expr (.lambda f) => P f.type
  | _ => True

namespace Typing

variable {P : Ty → Prop} (hP : Ty.Hereditary P) {reg : Registry} {id : ScopeId} {t : Ty}

include hP

theorem literal_hereditary (value : Literal) : P value.type := by
  unfold Literal.type
  split
  case h_2 =>
    split
    · exact hP.ofPrimitive _
    · split <;> exact hP.ofPrimitive _
  all_goals exact hP.ofPrimitive _

theorem arithmetic_hereditary {l u : Ty} (hl : P l) (hu : P u) (ht : arithmetic l u = .ok t) : P t := by
  unfold arithmetic at ht
  split at ht
  · exact Except.ok.inj ht ▸ hl
  · split at ht
    · rename_i hd
      exact Except.ok.inj ht ▸ hP.dominant hl hu hd
    · cases ht

theorem unary_hereditary {u : Ty} {op : UnaryOp} (hu : P u) (ht : unary u op = .ok t) : P t := by
  unfold unary at ht
  split at ht
  · exact Except.ok.inj ht ▸ hP.ofPrimitive _
  · exact Except.ok.inj ht ▸ hP.setFlags.mpr hu
  · split at ht
    · exact Except.ok.inj ht ▸ hP.setFlags.mpr hu
    · cases ht
  · exact Except.ok.inj ht ▸ hu

variable (hreg : reg.AllTypes P)

include hreg

theorem identifier_hereditary {i : Identifier} (ht : identifier reg i = .ok t) : P t := by
  unfold identifier at ht
  split at ht <;> rw [orFault_eq_ok, Option.map_eq_some_iff] at ht
  · obtain ⟨v, hv, rfl⟩ := ht
    exact hreg.variableIn? hv
  · obtain ⟨f, hf, rfl⟩ := ht
    exact hP.function.mpr (hreg.function? hf)

omit hP in
theorem member_hereditary {owner : String} {type : Ty} {m : Member}
    (ht : member reg id owner type m = .ok t) : P t := by
  simp only [member, bind_eq_ok] at ht
  obtain ⟨struct, _, ht⟩ := ht
  split at ht <;> simp only [bind_eq_ok, orFault_eq_ok] at ht
  · rename_i hfields
    obtain ⟨fields, rfl, hm⟩ := ht
    obtain ⟨f, hf, rfl⟩ := Option.map_eq_some_iff.mp hm
    exact hreg.fields? hfields f (List.mem_of_find?_eq_some hf)
  · obtain ⟨_, hfault, _⟩ := ht
    cases hfault

omit hP in
theorem members_hereditary {ms : List Member} {owner : String} {type : Ty} (htype : P type)
    (ht : members reg id owner type ms = .ok t) : P t := by
  induction ms generalizing owner type with
  | nil => exact Except.ok.inj ht ▸ htype
  | cons m ms ih =>
      simp only [members, bind_eq_ok] at ht
      obtain ⟨u, hu, ht⟩ := ht
      exact ih (member_hereditary hreg hu) ht

theorem result_hereditary {c : Call} (ht : result reg id c = .ok t) : P t := by
  unfold result at ht
  split at ht
  · rw [orFault_eq_ok, Option.map_eq_some_iff] at ht
    obtain ⟨f, hf, rfl⟩ := ht
    exact (hreg.function? hf).2
  · split at ht
    · rename_i ps result flags htype
      obtain ⟨v, hv, hvt⟩ := Option.map_eq_some_iff.mp htype
      have hm := hvt ▸ hreg.variableIn? hv
      exact Except.ok.inj ht ▸ (hP.function.mp hm).2
    · cases ht
  · cases ht

theorem infer_hereditary {site : Site} {e : Expr} (he : Every (fun _ n => n.Brings P) site (.expr e))
    (ht : infer reg id e = .ok t) : P t := by
  fun_induction infer reg id e generalizing t with
  | case1 value span => exact Except.ok.inj ht ▸ literal_hereditary hP value
  | case2 => exact identifier_hereditary hP hreg ht
  | case3 => exact Except.ok.inj ht ▸ hP.setFlags.mpr (hP.ofPrimitive _)
  | case4 base ms span =>
      obtain ⟨u, hu, ht⟩ := bind_eq_ok.mp ht
      exact members_hereditary hreg (identifier_hereditary hP hreg hu) ht
  | case5 array index span ih =>
      obtain ⟨u, hu, ht⟩ := bind_eq_ok.mp ht
      have harray := ih (he.child (by simp [Node.children])) hu
      exact hP.element? harray (orFault_eq_ok.mp ht)
  | case6 c => exact result_hereditary hP hreg ht
  | case7 op lhs rhs span ihl ihr =>
      obtain ⟨l, hl, ht⟩ := bind_eq_ok.mp ht
      obtain ⟨u, hu, ht⟩ := bind_eq_ok.mp ht
      have hlhs := ihl (he.child (by simp [Node.children])) hl
      have hrhs := ihr (he.child (by simp [Node.children])) hu
      split at ht
      · exact arithmetic_hereditary hP hlhs hrhs ht
      all_goals exact Except.ok.inj ht ▸ hP.ofPrimitive _
  | case8 op operand span ih =>
      obtain ⟨u, hu, ht⟩ := bind_eq_ok.mp ht
      exact unary_hereditary hP (ih (he.child (by simp [Node.children])) hu) ht
  | case9 op target value span ih => exact ih (he.child (by simp [Node.children])) ht
  | case10 name internal entries span => exact Except.ok.inj ht ▸ he.here
  | case11 => exact Except.ok.inj ht ▸ hP.array.mpr (hP.ofPrimitive _)
  | case12 e es span ih =>
      obtain ⟨u, hu, ht⟩ := bind_eq_ok.mp ht
      exact Except.ok.inj ht ▸ hP.array.mpr (ih (he.child (by simp [Node.children])) hu)
  | case13 f => exact Except.ok.inj ht ▸ he.here

end Typing
end OnePass
