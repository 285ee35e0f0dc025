import OnePass.Proofs.Typing.Settling
import OnePass.Proofs.Typing.Stability
import OnePass.Resolution

/-!
Failures and where they point. The types of expressions and the targets of calls are asked for without a
place, and whoever asks points the failure at one. The one check that does not is that of a declaration
with a type: a slot may fail to take an array for an element behind the first, which the type of the array
says nothing about.
-/

namespace OnePass

namespace Diagnostic

/-- The diagnostic points nowhere yet, and can be pointed somewhere. -/
def Bare (d : Diagnostic) : Prop := d.references = [] ∧ d.category ≠ .io

/-- The diagnostic points somewhere, and nowhere but at spans of the file that have a property. -/
def PointsInto (d : Diagnostic) (source : Source) (W : Span → Prop) : Prop :=
  d.references ≠ [] ∧ ∀ ref ∈ d.references, ref.source = source ∧ W ref.span

variable {d : Diagnostic} {source : Source} {W : Span → Prop} {span : Span} {fault : Fault}

theorem pointsInto_located (h : W span) : (located fault source span).PointsInto source W :=
  ⟨List.cons_ne_nil _ _, List.forall_mem_singleton.mpr ⟨rfl, h⟩⟩

theorem Bare.addReference (hd : d.Bare) (h : W span) : (d.addReference source span).PointsInto source W := by
  unfold Diagnostic.addReference
  split
  · exact absurd ‹_› hd.2
  · rw [hd.1]
    exact ⟨List.cons_ne_nil _ _, List.forall_mem_singleton.mpr ⟨rfl, h⟩⟩

theorem Bare.orReference (hd : d.Bare) (h : W span) : (d.orReference source span).PointsInto source W := by
  rw [Diagnostic.orReference, if_pos (List.isEmpty_iff.mpr hd.1)]
  exact hd.addReference h

theorem PointsInto.addReference (hd : d.PointsInto source W) (h : W span) :
    (d.addReference source span).PointsInto source W := by
  unfold Diagnostic.addReference
  split
  · exact hd
  · refine ⟨by simp, fun ref href => ?_⟩
    rcases List.mem_append.mp href with href | href
    · exact hd.2 ref href
    · exact List.mem_singleton.mp href ▸ ⟨rfl, h⟩

end Diagnostic

theorem references_withHint (d : Diagnostic) (name : Option String) :
    (Typing.withHint d name).references = d.references := by
  unfold Typing.withHint Diagnostic.setHint
  split
  · split <;> rfl
  · rfl

theorem category_withHint (d : Diagnostic) (name : Option String) :
    (Typing.withHint d name).category = d.category := by
  unfold Typing.withHint Diagnostic.setHint
  split
  · split <;> rfl
  · rfl

/-- Whatever a computation fails with has a property. -/
def Fails {α : Type} (x : Except Diagnostic α) (E : Diagnostic → Prop) : Prop := ∀ d, x = .error d → E d

namespace Fails

variable {α β : Type} {x : Except Diagnostic α} {E E' : Diagnostic → Prop}

theorem ok {a : α} : Fails (.ok a) E := fun _ h => nomatch h

theorem error {d : Diagnostic} (h : E d) : Fails (.error d : Except Diagnostic α) E :=
  fun _ hd => Except.error.inj hd ▸ h

theorem bind {f : α → Except Diagnostic β} (hx : Fails x E) (hf : ∀ a, x = .ok a → Fails (f a) E) :
    Fails (x >>= f) E := by
  cases x with
  | ok a => exact hf a rfl
  | error d => exact error (hx d rfl)

theorem map {f : α → β} (hx : Fails x E) : Fails (f <$> x) E := hx.bind fun _ _ => ok

theorem imp (hx : Fails x E) (h : ∀ d, E d → E' d) : Fails x E' := fun d hd => h d (hx d hd)

/-- A failure under a condition, and what is done otherwise. -/
theorem guard {c : Prop} [Decidable c] {d : Diagnostic} {f : PUnit → Except Diagnostic β} (hd : E d)
    (hf : ¬c → Fails (f ()) E) : Fails (if c then (.error d : Except Diagnostic PUnit) >>= f else f ()) E := by
  split
  · exact error hd
  · exact hf ‹_›

end Fails

namespace Typing

open Diagnostic

variable {reg : Registry} {scope : ScopeId}

/-! ### Types -/

theorem fault_fails {α : Type} {f : Fault} (h : f.category ≠ .io) : Fails (fault f : Except Diagnostic α) Bare :=
  .error ⟨rfl, h⟩

theorem orFault_fails {α : Type} {o : Option α} {f : Fault} (h : f.category ≠ .io) : Fails (orFault o f) Bare := by
  unfold orFault
  split
  · exact .ok
  · exact fault_fails h

theorem notFound_bare (c : Call) : (notFound reg c).Bare :=
  ⟨references_withHint _ _, by rw [notFound, category_withHint]; exact nofun⟩

theorem identifier_fails (id : Identifier) : Fails (identifier reg id) Bare := by
  unfold identifier
  split <;> exact orFault_fails nofun

theorem followAliases_category {name : String} {n : Nat} {s : Struct} {f : Fault}
    (h : reg.followAliases scope name n s = .error f) : f.category ≠ .io := by
  induction n generalizing s with
  | zero =>
      cases h
      rintro ⟨⟩
  | succ n ih =>
      unfold Registry.followAliases at h
      split at h
      · cases h
      · split at h
        · exact ih h
        · cases h
          rintro ⟨⟩

theorem fields?_category {name : String} {f : Fault} (h : reg.fields? scope name = .error f) :
    f.category ≠ .io := by
  unfold Registry.fields? at h
  split at h
  · rename_i s _
    cases hfollow : reg.followAliases scope name (reg.structs scope).length s with
    | ok fields =>
        rw [hfollow] at h
        cases h
    | error f' =>
        rw [hfollow] at h
        cases h
        exact followAliases_category hfollow
  · cases h

theorem member_fails {owner : String} {type : Ty} {m : Member} :
    Fails (member reg scope owner type m) Bare := by
  unfold member
  refine .bind (orFault_fails nofun) fun struct _ => ?_
  split
  · exact .bind (orFault_fails nofun) fun fields _ => orFault_fails nofun
  · exact .bind (fault_fails (fields?_category ‹_›)) fun fields _ => orFault_fails nofun

theorem members_fails {ms : List Member} {owner : String} {type : Ty} :
    Fails (members reg scope owner type ms) Bare := by
  induction ms generalizing owner type with
  | nil => exact .ok
  | cons m ms ih => exact .bind member_fails fun _ _ => ih

theorem result_fails (c : Call) : Fails (result reg scope c) Bare := by
  unfold result
  split
  · exact orFault_fails nofun
  · split
    · exact .ok
    · exact fault_fails nofun
  · exact .error (notFound_bare c)

theorem dominant_category {l r : Ty} {f : Fault} (h : l.dominant r = .error f) : f.category ≠ .io := by
  unfold Ty.dominant Ty.dominantPrimitive at h
  split at h
  · cases h
  · split at h
    · cases h
    · split at h
      · exact Except.error.inj h ▸ nofun
      · exact Except.error.inj h ▸ nofun
      · split at h
        · cases h
        · exact Except.error.inj h ▸ nofun
      · split at h
        · cases h
        · split at h
          · cases h
          · split at h
            · cases h
            · exact Except.error.inj h ▸ nofun
      · exact Except.error.inj h ▸ nofun

theorem arithmetic_fails {l r : Ty} : Fails (arithmetic l r) Bare := by
  unfold arithmetic
  split
  · exact .ok
  · split
    · exact .ok
    · exact fault_fails (dominant_category ‹_›)

theorem unary_fails {t : Ty} {op : UnaryOp} : Fails (unary t op) Bare := by
  unfold unary
  split
  · exact .ok
  · exact .ok
  · split
    · exact .ok
    · exact fault_fails nofun
  · exact .ok

theorem infer_fails (e : Expr) : Fails (infer reg scope e) Bare := by
  fun_induction infer reg scope e with
  | case1 | case3 | case10 | case11 | case13 => exact .ok
  | case2 id => exact identifier_fails id
  | case4 base ms span => exact .bind (identifier_fails base) fun _ _ => members_fails
  | case5 array index span ih => exact .bind ih fun _ _ => orFault_fails (by rintro ⟨⟩)
  | case6 c => exact result_fails c
  | case7 op lhs rhs span ihl ihr =>
      refine .bind ihl fun l _ => .bind ihr fun r _ => ?_
      split
      · exact arithmetic_fails
      all_goals exact .ok
  | case8 op operand span ih => exact .bind ih fun _ _ => unary_fails
  | case9 op target value span ih => exact ih
  | case12 e es span ih => exact .bind ih fun _ _ => .ok

/-! ### Slots -/

theorem suits_fails {target : Ty} {value : Expr} : Fails (suits reg scope target value) Bare :=
  .bind (infer_fails value) fun _ _ => .ok

mutual

theorem coerces_fails (target : Ty) (value : Expr) : Fails (coerces reg scope target value) Bare := by
  unfold coerces
  split
  · exact .ok
  · split
    · rename_i element length flags e es span _
      exact coercesAll_fails element (e :: es)
    · exact suits_fails

theorem coercesAll_fails (target : Ty) (values : List Expr) :
    Fails (coercesAll reg scope target values) Bare := by
  match values with
  | [] => exact .ok
  | e :: es =>
      refine .bind (coerces_fails target e) fun fits _ => ?_
      split
      · exact coercesAll_fails target es
      · exact .ok

end

/-- A literal has the type of its size, whatever signs are in front. -/
theorem infer_of_literalValue? (reg : Registry) (scope : ScopeId) {a : Expr} {n : Int}
    (h : a.literalValue? = some n) :
    ∃ size : Nat, (n = size ∨ n = -size) ∧
      infer reg scope a = .ok (Literal.integer size false).type := by
  fun_induction Expr.literalValue? a generalizing n with
  | case1 value span =>
      obtain rfl := Option.some.inj h
      exact ⟨value, .inl rfl, by rw [infer]⟩
  | case2 operand span ih =>
      obtain ⟨m, hm, rfl⟩ := Option.map_eq_some_iff.mp h
      obtain ⟨size, hsize, hinfer⟩ := ih hm
      refine ⟨size, ?_, ?_⟩
      · omega
      · rw [infer, hinfer]
        rfl
  | case3 => cases h

/-- What a slot takes or does not take has a type. -/
theorem infer_of_coerces {target : Ty} {value : Expr} {fits : Bool}
    (h : coerces reg scope target value = .ok fits) : ∃ t, infer reg scope value = .ok t := by
  unfold coerces at h
  split at h
  · rename_i hfits
    unfold literalFits? at hfits
    split at hfits
    · rename_i hvalue _
      obtain ⟨size, _, hinfer⟩ := infer_of_literalValue? reg scope hvalue
      exact ⟨_, hinfer⟩
    · cases hfits
  · split at h
    · rename_i e es span _
      obtain ⟨first, hfirst, _⟩ := bind_eq_ok.mp h
      obtain ⟨t, ht⟩ := infer_of_coerces hfirst
      exact ⟨_, by rw [infer, ht]; rfl⟩
    · obtain ⟨t, ht, _⟩ := bind_eq_ok.mp h
      exact ⟨t, ht⟩
termination_by sizeOf value

theorem coercesEach_fails {params : List Ty} {args : List Expr} :
    Fails (coercesEach reg scope params args) Bare := by
  fun_induction coercesEach reg scope params args with
  | case1 p ps a as ih =>
      refine .bind (coerces_fails p a) fun fits _ => ?_
      split
      · exact ih
      · exact .ok
  | case2 => exact .ok

theorem argumentsFit_fails {params : List Ty} {isVariadic : Bool} {args : List Expr} :
    Fails (argumentsFit reg scope params isVariadic args) Bare := by
  unfold argumentsFit
  split
  · exact coercesEach_fails
  · exact .ok

/-! ### Checks -/

variable {α : Type} {source : Source} {W : Span → Prop} {span : Span}

/-- A failure without a place is pointed at one. -/
theorem locate_fails {x : Except Diagnostic α} (hx : Fails x Bare) (h : W span) :
    Fails (locate source span x) (PointsInto · source W) := by
  cases x with
  | ok a => exact .ok
  | error d => exact .error ((hx d rfl).orReference h)

namespace Setting

variable {s : Setting}

theorem infer_fails {e : Expr} (h : W e.span) : Fails (s.infer e) (PointsInto · s.source W) :=
  locate_fails (Typing.infer_fails e) h

theorem coerces_fails {target : Ty} {value : Expr} (h : W value.span) :
    Fails (s.coerces target value) (PointsInto · s.source W) :=
  locate_fails (Typing.coerces_fails target value) h

theorem fail_fails {fault : Fault} (h : W span) :
    Fails (s.fail fault span : Except Diagnostic α) (PointsInto · s.source W) :=
  .error (pointsInto_located h)

/-- A value that a slot does not take is reported with its type, which it has. -/
theorem mismatch_fails {type : Ty} {value : Expr} {fault : Ty → Fault} {next : Except Diagnostic Unit}
    (h : W value.span) (hnext : Fails next (PointsInto · s.source W)) :
    Fails (do
      if !(← s.coerces type value) then
        let actual ← Typing.infer s.reg s.scope value
        s.fail (fault actual) value.span
      next) (PointsInto · s.source W) := by
  refine .bind (coerces_fails h) fun fits hfits => ?_
  obtain ⟨t, ht⟩ := infer_of_coerces (locate_eq_ok.mp hfits)
  rw [ht]
  split
  · exact .error (pointsInto_located h)
  · exact hnext

/-- A declaration may fail without a place: the value has a type, but the slot cannot be asked to take it. -/
def Undecided (s : Setting) (declared : Ty) (value : Expr) (d : Diagnostic) : Prop :=
  (∃ t, Typing.infer s.reg s.scope value = .ok t) ∧ Typing.coerces s.reg s.scope declared value = .error d

theorem checkDeclaration_fails {declared : Ty} {value : Expr} (hspan : W span) (h : W value.span) :
    Fails (s.checkDeclaration declared span value) fun d =>
      d.PointsInto s.source W ∨ s.Undecided declared value d := by
  refine .bind ((infer_fails h).imp fun _ => .inl) fun t ht => ?_
  cases hcoerces : Typing.coerces s.reg s.scope declared value with
  | error d => exact .error (.inr ⟨⟨t, locate_eq_ok.mp ht⟩, hcoerces⟩)
  | ok fits =>
      cases fits with
      | true => exact .ok
      | false => exact .error (.inl ((pointsInto_located hspan).addReference h))

theorem checkFields_fails {struct : String} {all fields : List Field} {entries : List Entry} {index : Nat}
    (h : ∀ e ∈ entries, W e.span ∧ W e.value.span) :
    Fails (s.checkFields struct all index fields entries) (PointsInto · s.source W) := by
  induction fields generalizing entries index with
  | nil => exact .ok
  | cons expected fields ih =>
      obtain _ | ⟨e, entries⟩ := entries
      · exact .ok
      · obtain ⟨⟨he, hvalue⟩, hentries⟩ := List.forall_mem_cons.mp h
        unfold checkFields
        split
        · refine .guard (pointsInto_located he) fun _ => ?_
          exact mismatch_fails hvalue (ih hentries)
        · exact fail_fails he

theorem checkConstruction_fails {struct internal : String} {entries : List Entry} (hspan : W span)
    (h : ∀ e ∈ entries, W e.span ∧ W e.value.span) :
    Fails (s.checkConstruction struct internal entries span) (PointsInto · s.source W) := by
  refine .bind (locate_fails ?_ hspan) fun fields _ => ?_
  · split
    · exact orFault_fails (by rintro ⟨⟩)
    · exact fault_fails (fields?_category ‹_›)
  · refine .guard (pointsInto_located hspan) fun _ => ?_
    refine .guard (pointsInto_located hspan) fun _ => ?_
    exact checkFields_fails h

theorem checkReturn_fails {function : String} {result : Ty} {value : Option Expr} (hspan : W span)
    (h : ∀ e ∈ value, W e.span) :
    Fails (s.checkReturn function result value span) (PointsInto · s.source W) := by
  unfold checkReturn
  split
  · rename_i value
    refine .guard (pointsInto_located (h value rfl)) fun _ => ?_
    exact mismatch_fails (h value rfl) .ok
  · split
    · exact .error (pointsInto_located hspan)
    · exact .ok

theorem slot?_fails {target : Expr} : Fails (s.slot? target) Bare := by
  unfold slot?
  dsimp only
  split
  · split
    · refine .bind .ok fun part _ => ?_
      split <;> exact .ok
    · refine .bind (.map (Typing.infer_fails target)) fun part _ => ?_
      split <;> exact .ok
  · exact .ok

theorem checkAssignment_fails {target value : Expr} (hspan : W span) (ht : W target.span)
    (hv : W value.span) : Fails (s.checkAssignment target value span) (PointsInto · s.source W) := by
  refine .bind (locate_fails slot?_fails ht) fun slot _ => ?_
  split
  · refine .guard (pointsInto_located hspan) fun _ => ?_
    exact mismatch_fails hv .ok
  · exact fail_fails ht

theorem checkIncrement_fails {target : Expr} (ht : W target.span) :
    Fails (s.checkIncrement target) (PointsInto · s.source W) := by
  refine .bind (locate_fails slot?_fails ht) fun slot _ => ?_
  split
  · split
    · exact .error (pointsInto_located ht)
    · exact .ok
  · exact fail_fails ht

theorem checkIndex_fails {index : Expr} (h : W index.span) :
    Fails (s.checkIndex index) (PointsInto · s.source W) := by
  refine .bind (infer_fails h) fun type _ => ?_
  split
  · exact .error (pointsInto_located h)
  · exact .ok

end Setting
end Typing

/-! ### Names -/

namespace Registry

open Diagnostic

variable {reg : Registry} {source : Source} {W : Span → Prop}

theorem resolveIdentifier_fails {scope : ScopeId} {segments : List String} {span : Span} (h : W span) :
    Fails (reg.resolveIdentifier source scope segments span) (PointsInto · source W) := by
  unfold resolveIdentifier
  dsimp only
  split
  · exact .ok
  · refine .error ?_
    unfold PointsInto
    rw [references_withHint]
    exact pointsInto_located h

theorem exactTarget?_fails {c : Call} {names : List String} : Fails (reg.exactTarget? c names) Bare := by
  induction names with
  | nil => exact .ok
  | cons name names ih =>
      unfold exactTarget?
      dsimp only
      split
      · exact .ok
      · split
        · refine .bind Typing.argumentsFit_fails fun fits _ => ?_
          split
          · exact .ok
          · exact ih
        · exact ih

theorem variableTarget?_fails {c : Call} : Fails (reg.variableTarget? c) Bare := by
  unfold variableTarget?
  split
  · exact .ok
  · split
    · refine .bind Typing.argumentsFit_fails fun fits _ => ?_
      split <;> exact .ok
    · exact .ok

theorem filterM_fails {α : Type} {p : α → Except Diagnostic Bool} {E : Diagnostic → Prop} {as : List α}
    (h : ∀ a, Fails (p a) E) : Fails (as.filterM p) E := by
  have aux (acc : List α) : Fails (as.filterAuxM p acc) E := by
    induction as generalizing acc with
    | nil => exact .ok
    | cons a as ih => exact .bind (h a) fun _ _ => ih _
  exact .bind (aux []) fun _ _ => .ok

theorem onlyTarget?_fails {c : Call} {names : List String} : Fails (reg.onlyTarget? c names) Bare := by
  induction names with
  | nil => exact .ok
  | cons name names ih =>
      refine .bind (filterM_fails fun _ => Typing.argumentsFit_fails) fun fs _ => ?_
      split
      · exact ih
      · exact .ok
      · exact Typing.fault_fails nofun

theorem target?_fails {c : Call} : Fails (reg.target? c) Bare := by
  unfold target?
  refine .bind exactTarget?_fails fun direct _ => ?_
  split
  · exact .ok
  · refine .bind variableTarget?_fails fun held _ => ?_
    split
    · exact .ok
    · exact onlyTarget?_fails

theorem aim_fails {c : Call} (h : W c.span) : Fails (reg.aim source c) (PointsInto · source W) := by
  refine .bind (Typing.locate_fails target?_fails h) fun found _ => ?_
  split <;> exact .ok

theorem settleCall_fails {c : Call} (h : W c.span) :
    Fails (reg.settleCall source c) (PointsInto · source W) := by
  unfold settleCall
  split
  · exact .ok
  · refine .bind (Typing.locate_fails target?_fails h) fun found _ => ?_
    split
    · exact .ok
    · exact .error ((Typing.notFound_bare c).addReference h)

end Registry
end OnePass
