import OnePass.Proofs.Ty.Agreement
import OnePass.Proofs.Typing.Settling
import OnePass.Proofs.Typing.Stability
import OnePass.Typing.Check

/-!
What a passed check says of a value and its slot, and that it goes on to hold: names that are declared
later and targets that calls are given later take nothing back.
-/

namespace OnePass
namespace Typing

variable {r : Registry} {scope : ScopeId}

/-! ### Slots -/

/-- How a variable is bound does not matter for what it takes. -/
theorem coerces_setFlags {t : Ty} {f : Flags} (hp : f.pointer = t.isPointer)
    (ho : f.optional = t.isOptional) (value : Expr) :
    coerces r scope (t.setFlags f) value = coerces r scope t value := by
  have pointer : (t.setFlags f).isPointer = t.isPointer := by rw [Ty.isPointer, Ty.flags_setFlags, hp]
  have literal : literalFits? (t.setFlags f) value = literalFits? t value := by
    simp only [literalFits?, Ty.kind?_setFlags, pointer]
  have suit : suits r scope (t.setFlags f) value = suits r scope t value := by
    simp only [suits, Ty.accepts_setFlags hp ho]
  unfold coerces
  rw [literal, suit]
  split
  · rfl
  · cases t <;> cases value
    case array.array elements _ _ => cases elements <;> rfl
    all_goals rfl

theorem coerces_withFlags {t : Ty} {f : Flags} (hp : f.pointer = false) (ho : f.optional = false)
    (value : Expr) : coerces r scope (t.withFlags f) value = coerces r scope t value :=
  coerces_setFlags (by simp [Flags.union, hp, Ty.isPointer]) (by simp [Flags.union, ho, Ty.isOptional])
    value

/-- A variable takes its initial value, or it has the type of the value. -/
def Initializes (r : Registry) (scope : ScopeId) (type : Ty) (value : Expr) : Prop :=
  coerces r scope type value = .ok true ∨ ∃ t, infer r scope value = .ok t ∧ type.agrees t = true

/-- A value is returned if and only if there is a result, and the result takes it. -/
def Returns (r : Registry) (scope : ScopeId) (result : Ty) : Option Expr → Prop
  | none => result.isVoid = true
  | some value => result.isVoid = false ∧ coerces r scope result value = .ok true

/-- The place that is assigned to takes the value. -/
def Assigns (r : Registry) (scope : ScopeId) (target value : Expr) : Prop :=
  ∃ slot, infer r scope target = .ok slot ∧ coerces r scope slot value = .ok true

/-- The field with the name of a value takes the value. -/
def Fills (r : Registry) (scope : ScopeId) (fields : List Field) (e : Entry) : Prop :=
  ∃ field, fields.find? (·.name == e.name) = some field ∧
    coerces r scope field.type e.value = .ok true

/-- The values of a struct have the names of its fields, in their order, and each fills its field. -/
def Constructs (r : Registry) (scope : ScopeId) (struct : String) (entries : List Entry) : Prop :=
  ∃ fields, r.fields? scope struct = .ok (some fields) ∧
    entries.map (·.name) = fields.map (·.name) ∧ ∀ e ∈ entries, Fills r scope fields e

/-- Something that has elements is indexed with an integer. -/
def Indexes (r : Registry) (scope : ScopeId) (array index : Expr) : Prop :=
  (∃ t, infer r scope index = .ok t ∧ t.isInteger = true ∧ t.isPointer = false) ∧
    ∃ t element, infer r scope array = .ok t ∧ t.element? = some element

/-! ### Passed checks -/

namespace Setting

variable {s : Setting}

theorem coerces_of_checkDeclaration {type : Ty} {span : Span} {value : Expr}
    (h : s.checkDeclaration type span value = .ok ()) :
    Typing.coerces s.reg s.scope type value = .ok true := by
  obtain ⟨actual, _, h⟩ := bind_eq_ok.mp h
  obtain ⟨takes, htakes, h⟩ := bind_eq_ok.mp h
  cases takes with
  | true => exact htakes
  | false => cases h

theorem coerces_eq_ok {type : Ty} {value : Expr} {b : Bool} :
    s.coerces type value = .ok b ↔ Typing.coerces s.reg s.scope type value = .ok b :=
  locate_eq_ok

theorem infer_eq_ok {value : Expr} {t : Ty} :
    s.infer value = .ok t ↔ Typing.infer s.reg s.scope value = .ok t :=
  locate_eq_ok

/-- The part of a check that fails unless a slot takes a value. -/
theorem takes_of_mismatch {type : Ty} {value : Expr} {fault : Ty → Fault} {next : Except Diagnostic Unit}
    (h : (do
      let takes ← s.coerces type value
      if !takes then
        let actual ← Typing.infer s.reg s.scope value
        s.fail (fault actual) value.span
      else next) = .ok ()) :
    Typing.coerces s.reg s.scope type value = .ok true ∧ next = .ok () := by
  obtain ⟨takes, htakes, h⟩ := bind_eq_ok.mp h
  cases takes with
  | true => exact ⟨coerces_eq_ok.mp htakes, h⟩
  | false =>
      obtain ⟨_, _, h⟩ := bind_eq_ok.mp h
      cases h

theorem returns_of_checkReturn {function : String} {result : Ty} {value : Option Expr} {span : Span}
    (h : s.checkReturn function result value span = .ok ()) :
    Returns s.reg s.scope result value := by
  unfold checkReturn at h
  cases value with
  | none =>
      dsimp only at h
      split at h
      · cases h
      · rename_i hvoid
        exact Bool.not_eq_false _ |>.mp (by simpa using hvoid)
  | some value =>
      dsimp only at h
      split at h
      · cases h
      · rename_i hvoid
        exact ⟨Bool.eq_false_iff.mpr hvoid, (takes_of_mismatch h).1⟩

theorem infer_of_slot? {target : Expr} {slot : Slot} (h : s.slot? target = .ok (some slot)) :
    Typing.infer s.reg s.scope target = .ok slot.type := by
  unfold slot? at h
  dsimp only at h
  split at h
  · rename_i id isWhole hroot
    split at h
    · rename_i hwhole
      obtain ⟨part, hpart, h⟩ := bind_eq_ok.mp h
      obtain rfl := Except.ok.inj hpart
      have whole : target = .identifier id := by
        split at hroot <;> simp_all
      split at h
      · rename_i hbinding
        obtain ⟨v, hv, rfl⟩ := Option.map_eq_some_iff.mp (Except.ok.inj h)
        simp [whole, Typing.infer, identifier, hbinding, hv, orFault]
      · cases h
    · obtain ⟨part, hpart, h⟩ := bind_eq_ok.mp h
      obtain ⟨t, ht, rfl⟩ := map_eq_ok.mp hpart
      split at h
      · obtain ⟨v, _, rfl⟩ := Option.map_eq_some_iff.mp (Except.ok.inj h)
        exact ht
      · cases h
  · cases h

/-- An assignment that passes has a slot that may change and takes the value. -/
theorem slot_of_checkAssignment {target value : Expr} {span : Span}
    (h : s.checkAssignment target value span = .ok ()) :
    ∃ slot, s.slot? target = .ok (some slot) ∧ slot.variableType.isMutable = true ∧
      Typing.coerces s.reg s.scope slot.type value = .ok true := by
  obtain ⟨slot, hslot, h⟩ := bind_eq_ok.mp h
  cases slot with
  | none => cases h
  | some slot =>
      dsimp only at h
      split at h
      · cases h
      · rename_i hmutable
        exact ⟨slot, locate_eq_ok.mp hslot, by simpa using hmutable, (takes_of_mismatch h).1⟩

theorem assigns_of_checkAssignment {target value : Expr} {span : Span}
    (h : s.checkAssignment target value span = .ok ()) : Assigns s.reg s.scope target value := by
  obtain ⟨slot, hslot, _, htakes⟩ := slot_of_checkAssignment h
  exact ⟨slot.type, infer_of_slot? hslot, htakes⟩

theorem fills_of_checkFields {struct : String} {all fields : List Field} {entries : List Entry}
    {index : Nat} (hlength : entries.length = fields.length)
    (h : s.checkFields struct all index fields entries = .ok ()) :
    entries.map (·.name) = fields.map (·.name) ∧ ∀ e ∈ entries, Fills s.reg s.scope all e := by
  induction fields generalizing entries index with
  | nil =>
      obtain rfl := List.eq_nil_of_length_eq_zero hlength
      exact ⟨rfl, by simp⟩
  | cons field fields ih =>
      obtain _ | ⟨e, entries⟩ := entries
      · cases hlength
      · unfold checkFields at h
        split at h
        · rename_i named hnamed
          dsimp only at h
          split at h
          · cases h
          · rename_i hname
            obtain ⟨htakes, h⟩ := takes_of_mismatch h
            obtain ⟨hnames, hfills⟩ := ih (Nat.succ.inj hlength) h
            have same : field.name = e.name := by simpa using hname
            exact ⟨by rw [List.map_cons, List.map_cons, same, hnames],
              List.forall_mem_cons.mpr ⟨⟨named, hnamed, htakes⟩, hfills⟩⟩
        · cases h

theorem constructs_of_checkConstruction {struct internal : String} {entries : List Entry} {span : Span}
    (h : s.checkConstruction struct internal entries span = .ok ()) :
    Constructs s.reg s.scope internal entries := by
  obtain ⟨fields, hfields, h⟩ := bind_eq_ok.mp h
  rw [locate_eq_ok] at hfields
  split at hfields
  · rename_i found hfound
    obtain rfl := orFault_eq_ok.mp hfields
    dsimp only at h
    split at h
    · cases h
    · rename_i hfew
      split at h
      · cases h
      · rename_i hmany
        exact ⟨fields, hfound, fills_of_checkFields (by omega) h⟩
  · cases hfields

theorem integer_of_checkIndex {index : Expr} (h : s.checkIndex index = .ok ()) :
    ∃ t, Typing.infer s.reg s.scope index = .ok t ∧ t.isInteger = true ∧ t.isPointer = false := by
  obtain ⟨t, ht, h⟩ := bind_eq_ok.mp h
  split at h
  · cases h
  · rename_i hbad
    exact ⟨t, infer_eq_ok.mp ht, by simpa using hbad⟩

end Setting

/-! ### Later -/

section Later

variable {r' : Registry} {g : Call → Except Diagnostic Call} (hx : r.Extends r') (h : r.WellFormed)
  (h' : r'.WellFormed) (hscope : r.Knows scope) (hg : Retargets g)

include hx h h' hscope hg

theorem infer_later {e e' : Expr} {t : Ty} (he : e.mapCalls g = .ok e') (ht : infer r scope e = .ok t) :
    infer r' scope e' = .ok t :=
  infer_mapCalls hg he (infer_of_extends hx h h' hscope ht)

theorem inferAll_later {es es' : List Expr} {ts : List Ty}
    (he : List.Forall₂ (fun e e' => e.mapCalls g = .ok e') es es')
    (ht : List.Forall₂ (fun e t => infer r scope e = .ok t) es ts) :
    List.Forall₂ (fun e t => infer r' scope e = .ok t) es' ts := by
  induction he generalizing ts with
  | nil =>
      cases ht
      exact .nil
  | cons hfirst _ ih =>
      cases ht with
      | cons htype hrest => exact .cons (infer_later hx h h' hscope hg hfirst htype) (ih hrest)

theorem coerces_later {e e' : Expr} {type : Ty} {b : Bool} (he : e.mapCalls g = .ok e')
    (hb : coerces r scope type e = .ok b) : coerces r' scope type e' = .ok b :=
  coerces_mapCalls hg he (coerces_of_extends hx h h' hscope hb)

theorem coercesEach_later {params : List Ty} {es es' : List Expr}
    (he : List.Forall₂ (fun e e' => e.mapCalls g = .ok e') es es')
    (hb : coercesEach r scope params es = .ok true) : coercesEach r' scope params es' = .ok true := by
  induction he generalizing params with
  | nil => cases params <;> exact hb
  | cons hfirst _ ih =>
      cases params with
      | nil => exact hb
      | cons p ps =>
          obtain ⟨htakes, hrest⟩ := and_eq_ok.mp hb
          exact and_eq_ok.mpr ⟨coerces_later hx h h' hscope hg hfirst htakes, ih hrest⟩

theorem Initializes.later {type : Ty} {e e' : Expr} (he : e.mapCalls g = .ok e')
    (hi : Initializes r scope type e) : Initializes r' scope type e' := by
  rcases hi with htakes | ⟨t, ht, hagrees⟩
  · exact .inl (coerces_later hx h h' hscope hg he htakes)
  · exact .inr ⟨t, infer_later hx h h' hscope hg he ht, hagrees⟩

theorem Returns.later {result : Ty} {value value' : Option Expr}
    (hv : List.Forall₂ (fun e e' => e.mapCalls g = .ok e') value.toList value'.toList)
    (hr : Returns r scope result value) : Returns r' scope result value' := by
  cases value with
  | none =>
      cases value' with
      | none => exact hr
      | some _ => cases hv
  | some e =>
      cases value' with
      | none => cases hv
      | some e' =>
          obtain ⟨hvoid, htakes⟩ := hr
          exact ⟨hvoid, coerces_later hx h h' hscope hg (List.forall₂_cons.mp hv).1 htakes⟩

theorem Assigns.later {target target' value value' : Expr} (ht : target.mapCalls g = .ok target')
    (hv : value.mapCalls g = .ok value') (ha : Assigns r scope target value) :
    Assigns r' scope target' value' := by
  obtain ⟨slot, hslot, htakes⟩ := ha
  exact ⟨slot, infer_later hx h h' hscope hg ht hslot, coerces_later hx h h' hscope hg hv htakes⟩

theorem Constructs.later {struct : String} {entries entries' : List Entry}
    (he : List.Forall₂ (fun e e' => e.mapCalls g = .ok e') entries entries')
    (hc : Constructs r scope struct entries) : Constructs r' scope struct entries' := by
  obtain ⟨fields, hfields, hnames, hfills⟩ := hc
  refine ⟨fields, hx.fields?_eq_some h h' hscope hfields, ?_, ?_⟩
  · rw [← hnames]
    clear hnames hfills
    induction he with
    | nil => rfl
    | cons hr _ ih =>
        obtain ⟨value, rfl, _⟩ := Entry.mapCalls_eq_ok hr
        rw [List.map_cons, List.map_cons, ih]
  · intro e' hm
    obtain ⟨e, hme, hr⟩ := exists_mem_of_forall₂ he hm
    obtain ⟨value, rfl, hvalue⟩ := Entry.mapCalls_eq_ok hr
    obtain ⟨field, hfield, htakes⟩ := hfills e hme
    exact ⟨field, hfield, coerces_later hx h h' hscope hg hvalue htakes⟩

theorem Indexes.later {array array' index index' : Expr} (ha : array.mapCalls g = .ok array')
    (hi : index.mapCalls g = .ok index') (hn : Indexes r scope array index) :
    Indexes r' scope array' index' := by
  obtain ⟨⟨t, ht, hinteger⟩, u, element, hu, helement⟩ := hn
  exact ⟨⟨t, infer_later hx h h' hscope hg hi ht, hinteger⟩,
    u, element, infer_later hx h h' hscope hg ha hu, helement⟩

end Later

end Typing
end OnePass
