import OnePass.Proofs.Ty.Faithful
import OnePass.Proofs.Typing.Faults

/-!
When a parameter takes an argument whose type is spelt like its own. It does unless one of three things is
the matter with the argument: its type is spelt like another, it is a number below the range of the type it
was given for its size, or it is an array and one of the elements behind the first, which alone has given it
its type, does not go in.
-/

namespace OnePass
namespace Typing

variable {reg : Registry} {scope : ScopeId}

/-- The argument goes into a parameter of the type `p`, whose text is that of the argument's type. -/
def Conforms (reg : Registry) (scope : ScopeId) : Ty → Expr → Prop
  | .array q _ _, .array (e :: es) _ =>
    Conforms reg scope q e ∧ ∀ e' ∈ es, coerces reg scope q e' = .ok true
  | _, a =>
    ∃ t, infer reg scope a = .ok t ∧ t.Faithful ∧
      ∀ n, a.literalValue? = some n → t.kind? = some .u64 → 0 ≤ n ∧ n < twoTo 64

/-! ### Literals -/

/-- The type of an integer holds it, unless it is the widest and a sign is in front. That is so from the least
number of 64 bits on downwards. -/
theorem literal_range {size : Nat} {n : Int} (hn : n = size ∨ n = -size) :
    ∃ k least greatest, (Literal.integer size false).type = .ofPrimitive k ∧
      k.range? = some (least, greatest) ∧
      (least ≤ n ∧ n ≤ greatest ↔ (k = .u64 → 0 ≤ n ∧ n < twoTo 64)) ∧
      (least ≤ n ∧ n ≤ greatest ↔ -twoTo 63 < n ∧ n < twoTo 64) := by
  have h31 : twoTo 31 = 2147483648 := rfl
  have h63 : twoTo 63 = 9223372036854775808 := rfl
  have h64 : twoTo 64 = 18446744073709551616 := rfl
  unfold Literal.type
  dsimp only
  split
  · exact ⟨.i32, -2147483648, 2147483647, rfl, rfl, ⟨nofun, fun _ => by omega⟩, by omega⟩
  · split
    · exact ⟨.i64, -9223372036854775808, 9223372036854775807, rfl, rfl, ⟨nofun, fun _ => by omega⟩, by omega⟩
    · refine ⟨.u64, 0, 18446744073709551615, rfl, rfl, ⟨fun h _ => by omega, fun h => ?_⟩, by omega⟩
      have := h rfl
      omega

/-- A slot for integers takes a literal if and only if the literal is in its range. -/
theorem coerces_iff_range {p : Ty} {a : Expr} {n least greatest : Int} {k : Primitive}
    (hn : a.literalValue? = some n) (hpointer : p.isPointer = false) (hkind : p.kind? = some k)
    (hrange : k.range? = some (least, greatest)) :
    coerces reg scope p a = .ok true ↔ least ≤ n ∧ n ≤ greatest := by
  have fits : literalFits? p a = some (decide (least ≤ n ∧ n ≤ greatest)) := by
    simp [literalFits?, hn, hkind, hrange, hpointer]
  unfold coerces
  rw [fits]
  simp only [Except.ok.injEq, decide_eq_true_eq]

theorem coerces_literal_iff {p t : Ty} {a : Expr} {n : Int} (hn : a.literalValue? = some n)
    (hpointer : p.isPointer = false) (ht : infer reg scope a = .ok t)
    (hm : t.Mentions (Named Token.Names)) (h : p.bare = t.shape.type) :
    coerces reg scope p a = .ok true ↔
      t.Faithful ∧ ∀ m, a.literalValue? = some m → t.kind? = some .u64 → 0 ≤ m ∧ m < twoTo 64 := by
  obtain ⟨size, hsize, hinfer⟩ := infer_of_literalValue? reg scope hn
  obtain ⟨k, least, greatest, htype, hrange, hfits, _⟩ := literal_range hsize
  obtain rfl : .ofPrimitive k = t := htype.symm.trans (Except.ok.inj (hinfer.symm.trans ht))
  have known : k ≠ .unknown := by
    rintro rfl
    cases hrange
  rw [Ty.type_shape _ hm known] at h
  have kind : p.kind? = some k := by
    rw [← Ty.kind?_bare, h]
    rfl
  rw [coerces_iff_range hn hpointer kind hrange]
  simp only [hfits, hn, Option.some.injEq, forall_eq', Ty.kind?, Ty.ofPrimitive]
  exact ⟨fun h => ⟨known, h⟩, fun h => h.2⟩

/-! ### Arguments -/

theorem coercesAll_iff {p : Ty} {es : List Expr} :
    coercesAll reg scope p es = .ok true ↔ ∀ e ∈ es, coerces reg scope p e = .ok true := by
  induction es with
  | nil => simp [coercesAll]
  | cons e es ih => rw [coercesAll, and_eq_ok, List.forall_mem_cons, ih]

/-- A slot for an array takes an array if it takes each element. -/
theorem coerces_array_iff {q : Ty} {l : Nat} {f : Flags} {e : Expr} {es : List Expr} {span : Span} :
    coerces reg scope (.array q l f) (.array (e :: es) span) = .ok true ↔
      coerces reg scope q e = .ok true ∧ ∀ e' ∈ es, coerces reg scope q e' = .ok true := by
  have elements : coerces reg scope (.array q l f) (.array (e :: es) span) =
      coercesAll reg scope q (e :: es) := by
    rw [coerces]
    rfl
  rw [elements, coercesAll_iff, List.forall_mem_cons]

/-- Of what is neither a literal nor an array for an array, only the type is looked at. -/
theorem coerces_eq_suits {p : Ty} {a : Expr} (hv : literalFits? p a = none)
    (other : ∀ q l f e es span, p = .array q l f → a = .array (e :: es) span → False) :
    coerces reg scope p a = suits reg scope p a := by
  unfold coerces
  rw [hv]
  dsimp only
  split
  · exact (other _ _ _ _ _ _ rfl rfl).elim
  · rfl

theorem suits_iff {p t : Ty} {a : Expr} (ht : infer reg scope a = .ok t) :
    suits reg scope p a = .ok true ↔ p.accepts t = true := by
  rw [suits, ht]
  exact ⟨Except.ok.inj, congrArg _⟩

/-- The ways in which a slot takes a value. -/
inductive Takes (reg : Registry) (scope : ScopeId) (p : Ty) (a : Expr) : Prop where
  | literal {n least greatest : Int} {k : Primitive} (value : a.literalValue? = some n)
      (plain : p.isPointer = false) (kind : p.kind? = some k) (range : k.range? = some (least, greatest))
      (within : least ≤ n ∧ n ≤ greatest)
  | array {q : Ty} {l : Nat} {f : Flags} {e : Expr} {es : List Expr} {span : Span} (slot : p = .array q l f)
      (value : a = .array (e :: es) span) (elements : ∀ e' ∈ e :: es, coerces reg scope q e' = .ok true)
  | type {t : Ty} (free : literalFits? p a = none) (inferred : infer reg scope a = .ok t)
      (accepts : p.accepts t = true)

theorem takes_of_coerces {p : Ty} {a : Expr} (h : coerces reg scope p a = .ok true) : Takes reg scope p a := by
  unfold coerces at h
  split at h
  · rename_i hfits
    obtain rfl := Except.ok.inj h
    unfold literalFits? at hfits
    split at hfits
    · rename_i n least greatest hn hrange
      split at hfits
      · cases hfits
      · rename_i hpointer
        obtain ⟨k, hkind, hrange⟩ := Option.bind_eq_some_iff.mp hrange
        exact .literal hn (Bool.eq_false_iff.mpr hpointer) hkind hrange
          (of_decide_eq_true (Option.some.inj hfits))
    · cases hfits
  · rename_i hfree
    split at h
    · exact .array rfl rfl (coercesAll_iff.mp h)
    · obtain ⟨t, ht, haccepts⟩ := bind_eq_ok.mp h
      exact .type hfree ht (Except.ok.inj haccepts)

theorem coerces_iff_conforms {N : String → Prop} {p t : Ty} {a : Expr} (hp : p.Spelt N)
    (hpointer : a.literalValue? ≠ none → p.isPointer = false) (ht : infer reg scope a = .ok t)
    (hm : t.Mentions (Named Token.Names)) (h : p.bare = t.shape.type) :
    coerces reg scope p a = .ok true ↔ Conforms reg scope p a := by
  fun_induction Conforms reg scope p a generalizing t with
  | case1 q l f e es span ih =>
      obtain ⟨u, hu, ht⟩ := bind_eq_ok.mp ht
      obtain rfl := Except.ok.inj ht
      obtain ⟨_, hq⟩ := Ty.element_of_bare h
      have plain : q.isPointer = false := by simp [Ty.isPointer, hp.1, Flags.plain]
      have first := ih hp.2 (fun _ => plain) hu hm hq
      rw [coerces_array_iff, first]
  | case2 p a other =>
      have accepted := Ty.accepts_iff_faithful hp hm h
      cases hv : a.literalValue? with
      | some n =>
          have fits := coerces_literal_iff hv (hpointer (by simp [hv])) ht hm h
          rw [fits]
          constructor
          · exact fun hf => ⟨t, ht, hv ▸ hf⟩
          · rintro ⟨u, hu, hf⟩
            obtain rfl := Except.ok.inj (ht.symm.trans hu)
            exact hv ▸ hf
      | none =>
          have literal : literalFits? p a = none := by simp [literalFits?, hv]
          rw [coerces_eq_suits literal other, suits_iff ht, accepted]
          constructor
          · exact fun hf => ⟨t, ht, hf, fun n hn => absurd hn.symm (Option.some_ne_none n)⟩
          · rintro ⟨u, hu, hf, _⟩
            obtain rfl := Except.ok.inj (ht.symm.trans hu)
            exact hf

theorem coercesEach_iff {ps : List Ty} {as : List Expr} :
    coercesEach reg scope ps as = .ok true ↔ ∀ x ∈ ps.zip as, coerces reg scope x.1 x.2 = .ok true := by
  induction ps generalizing as with
  | nil => simp [coercesEach]
  | cons p ps ih =>
      obtain _ | ⟨a, as⟩ := as
      · simp [coercesEach]
      · rw [coercesEach, and_eq_ok, List.zip_cons_cons, List.forall_mem_cons, ih]

/-- Where a parameter and an argument have types of one shape, the parameter takes the argument if and only
if it conforms. -/
theorem coerces_iff_of_shape {p t : Ty} {a : Expr} (hp : p.Written (Named Token.Names))
    (hm : t.Mentions (Named Token.Names)) (hshape : p.shape = t.shape)
    (ht : infer reg scope a = .ok t) : coerces reg scope p a = .ok true ↔ Conforms reg scope p a := by
  have read : p.bare = t.shape.type := by
    rw [← hshape, Ty.type_shape p hp.mentions (Ty.faithful_of_spelt p hp.2)]
  refine coerces_iff_conforms hp.2 (fun hliteral => ?_) ht hm read
  -- a literal has a type without marks, so a parameter spelt like it is no pointer
  obtain ⟨n, hn⟩ := Option.ne_none_iff_exists'.mp hliteral
  obtain ⟨size, hsize, hinfer⟩ := infer_of_literalValue? reg scope hn
  obtain ⟨k, _, _, htype, _⟩ := literal_range hsize
  obtain rfl : .ofPrimitive k = t := htype.symm.trans (Except.ok.inj (hinfer.symm.trans ht))
  refine Bool.eq_false_iff.mpr fun hpointer => ?_
  have marked := p.mem_marks_shape hpointer
  rw [hshape] at marked
  cases marked

theorem argumentsFit_iff_conforms {ps ts : List Ty} {as : List Expr} (isVariadic : Bool)
    (hps : ∀ p ∈ ps, p.Written (Named Token.Names)) (hts : ∀ t ∈ ts, t.Mentions (Named Token.Names))
    (hshapes : Ty.shapes ps = Ty.shapes ts)
    (hinfer : List.Forall₂ (fun a t => infer reg scope a = .ok t) as ts) :
    argumentsFit reg scope ps isVariadic as = .ok true ↔
      List.Forall₂ (Conforms reg scope) ps as := by
  rw [Ty.shapes_eq_map, Ty.shapes_eq_map] at hshapes
  have count : ps.length = as.length := by
    rw [hinfer.length_eq]
    simpa using congrArg List.length hshapes
  rw [argumentsFit, if_pos (.inl count.symm), coercesEach_iff]
  trans List.Forall₂ (fun p a => coerces reg scope p a = .ok true) ps as
  · rw [List.forall₂_iff_zip, Prod.forall, and_iff_right count]
  clear count
  induction hinfer generalizing ps with
  | nil =>
      rw [List.map_nil, List.map_eq_nil_iff] at hshapes
      simp [hshapes]
  | cons ht _ ih =>
      obtain _ | ⟨p, ps⟩ := ps
      · cases hshapes
      · rw [List.map_cons, List.map_cons, List.cons.injEq] at hshapes
        rw [List.forall_mem_cons] at hps hts
        rw [List.forall₂_cons, List.forall₂_cons]
        exact and_congr (coerces_iff_of_shape hps.1 hts.1 hshapes.1 ht) (ih hps.2 hts.2 hshapes.2)

end Typing
end OnePass
