import OnePass.Proofs.Program.Overload
import OnePass.Proofs.Registry.Aliases

/-!
What structs hold. A field holds a value of a struct unless it is a pointer or a reference, so structs that hold
each other in a circle have no finite layout. A type is looked up when it is read, and what it names must be
there, which keeps structs in an order: they hold what was declared before. There are three ways around it. A
struct may hold itself; an enum may have the name of a struct that is declared later; and an alias may be
declared before what it stands for, which need not come to be there at all.
-/

namespace OnePass

open Relation (ReflTransGen TransGen)

/-- The struct or enum of which a value of the type holds values, perhaps in arrays. -/
def Ty.held? : Ty → Option String
  | .named name flags => if flags.pointer || flags.reference then none else some name
  | .array element _ flags => if flags.pointer || flags.reference then none else element.held?
  | .primitive .. | .function .. => none

theorem Ty.Mentions.held? {N : String → Prop} {t : Ty} {name : String} (h : t.Mentions N)
    (hheld : t.held? = some name) : N name := by
  fun_induction Ty.held? t with
  | case1 | case3 | case5 | case6 => cases hheld
  | case2 => exact Option.some.inj hheld ▸ h
  | case4 _ _ _ _ ih => exact ih h hheld

namespace Registry

variable {r r' : Registry} {a b name : String}

/-- The names of what the fields of a struct hold. -/
def heldIn (r : Registry) (name : String) : List String :=
  ((r.ownFields? name).getD []).filterMap (·.type.held?)

/-- A struct holds what a name stands for, which has fields of its own. -/
def HoldsAs (r : Registry) (a name b : String) : Prop :=
  name ∈ r.heldIn a ∧ ReflTransGen r.StandsFor name b ∧ (r.ownFields? b).isSome = true

/-- A struct holds another, aliases replaced by what they stand for. -/
def Holds (r : Registry) (a b : String) : Prop := ∃ name, r.HoldsAs a name b

/-- Is there an enum or a class known by this name? -/
def HasMarker (r : Registry) (name : String) : Prop :=
  ∃ id symbol kind, .marker symbol kind ∈ r.definitions id ∧ kind ≠ .enumMember ∧ symbol.internal = name

theorem HasMarker.mono (h : r.HasMarker a) (hx : r.Extends r') : r'.HasMarker a := by
  obtain ⟨id, symbol, kind, hd, hkind, hname⟩ := h
  exact ⟨id, symbol, kind, (hx.definitions_prefix id).mem hd, hkind, hname⟩

theorem HasType.cases (h : r.HasType a) (wf : r.WellFormed) :
    (r.struct? global a).isSome = true ∨ r.HasMarker a := by
  obtain ⟨id, d, hd, htype, rfl⟩ := h
  cases d with
  | struct s =>
      obtain rfl : id = global := wf.placed id _ hd
      refine .inl (List.find?_isSome.mpr ⟨s, (mem_structs_iff wf wf.knows_global).mpr hd, beq_self_eq_true _⟩)
  | marker symbol kind => exact .inr ⟨id, symbol, kind, hd, by simpa [Definition.isType] using htype, rfl⟩
  | «variable» | function => cases htype

/-! ### Structs hold what was there before -/

/-- Structs hold what was declared before them, themselves, and what goes by the name of an enum. -/
def Layered (r : Registry) : Prop :=
  ∀ a, ∀ c ∈ r.heldIn a, r.order c < r.order a ∨ c = a ∨ r.HasMarker c

theorem Layered.mono (h : r.Layered) (hx : r.Extends r') (heq : r'.structs global = r.structs global) :
    r'.Layered := by
  intro a c hc
  simp only [heldIn, ownFields?, struct?, order, heq] at hc ⊢
  exact (h a c hc).imp_right fun h => h.imp_right fun h => h.mono hx

section Entered

variable {s : Struct} (heq : r'.structs global = r.structs global ++ [s])

include heq

theorem struct?_kept (ha : (r.struct? global a).isSome = true) : r'.struct? global a = r.struct? global a := by
  rw [struct?, heq, List.find?_append]
  exact Option.or_of_isSome ha

theorem order_kept (ha : (r.struct? global a).isSome = true) : r'.order a = r.order a := by
  rw [order, heq, List.findIdx_append]
  exact if_pos (order_lt_iff.mpr ha)

theorem struct?_new {t : Struct} (ha : ¬(r.struct? global a).isSome = true) (ht : r'.struct? global a = some t) :
    t = s ∧ a = s.symbol.internal := by
  have hnone := Option.not_isSome_iff_eq_none.mp ha
  rw [struct?] at hnone
  rw [struct?, heq, List.find?_append, hnone, Option.none_or] at ht
  have hname := List.find?_some (p := fun s : Struct => s.symbol.internal == a) ht
  obtain rfl := List.mem_singleton.mp (List.mem_of_find?_eq_some ht)
  exact ⟨rfl, (beq_iff_eq.mp hname).symm⟩

theorem Layered.entered (h : r.Layered) (hx : r.Extends r') (hnew : r.struct? global s.symbol.internal = none)
    (hfields : ∀ fields, s.layout = .fields fields → ∀ f ∈ fields, ∀ c, f.type.held? = some c →
      c = s.symbol.internal ∨ (r.struct? global c).isSome = true ∨ r.HasMarker c) : r'.Layered := by
  intro a c hc
  by_cases ha : (r.struct? global a).isSome = true
  · simp only [heldIn, ownFields?, struct?_kept heq ha] at hc
    refine (h a c hc).imp (fun hlt => ?_) fun h => h.imp_right fun h => h.mono hx
    have hc : (r.struct? global c).isSome = true := order_lt_iff.mp (Nat.lt_trans hlt (order_lt_iff.mpr ha))
    rwa [order_kept heq ha, order_kept heq hc]
  · obtain ⟨f, hf, hheld⟩ := List.mem_filterMap.mp hc
    cases hown : r'.ownFields? a with
    | none => simp [hown] at hf
    | some fields =>
        rw [hown, Option.getD_some] at hf
        obtain ⟨t, ht, hlayout⟩ := Option.bind_eq_some_iff.mp hown
        obtain ⟨rfl, rfl⟩ := struct?_new heq ha ht
        rcases hfields fields (Layout.fields?_eq_some.mp hlayout) f hf c hheld with rfl | hc | hc
        · exact .inr (.inl rfl)
        · have before : r.structs global <+: r'.structs global := ⟨_, heq.symm⟩
          rw [order_entered heq hnew]
          exact .inl ((order_lt_length_iff before).mpr hc)
        · exact .inr (.inr (hc.mono hx))

end Entered

/-! ### Circles -/

/-- What a struct holds was not there when the struct was declared: it is the struct itself, or it goes by the name
of an enum, or it is reached by an alias that was declared before what it stands for. -/
def Loose (r : Registry) (a name b : String) : Prop :=
  name = a ∨ (r.HasMarker name ∧ r.order a ≤ r.order name) ∨
    ∃ m, ReflTransGen r.StandsFor name m ∧ r.Forward m ∧ ReflTransGen r.StandsFor m b

/-- Aliases lead to earlier structs. -/
theorem order_le_or_forward (h : ReflTransGen r.StandsFor a b) :
    r.order b ≤ r.order a ∨
      ∃ m, ReflTransGen r.StandsFor a m ∧ r.Forward m ∧ ReflTransGen r.StandsFor m b := by
  induction h with
  | refl => exact .inl (Nat.le_refl _)
  | @tail m b before link ih =>
      by_cases hlt : r.order b < r.order m
      · rcases ih with hle | ⟨m', hm', hforward, hrest⟩
        · exact .inl (Nat.le_trans (Nat.le_of_lt hlt) hle)
        · exact .inr ⟨m', hm', hforward, hrest.tail link⟩
      · exact .inr ⟨m, before, ⟨b, link, Nat.le_of_not_lt hlt⟩, .single link⟩

theorem Layered.holdsAs (h : r.Layered) (hholds : r.HoldsAs a name b) :
    r.order b < r.order a ∨ r.Loose a name b := by
  obtain ⟨hname, hleads, _⟩ := hholds
  by_cases hlt : r.order name < r.order a
  · rcases order_le_or_forward hleads with hle | hforward
    · exact .inl (Nat.lt_of_le_of_lt hle hlt)
    · exact .inr (.inr (.inr hforward))
  · rcases h a name hname with hlt' | rfl | hmarker
    · exact absurd hlt' hlt
    · exact .inr (.inl rfl)
    · exact .inr (.inr (.inl ⟨hmarker, Nat.le_of_not_lt hlt⟩))

/-- On the way from a struct to another, one holds something that was not there. -/
def Loosens (r : Registry) (a b : String) : Prop :=
  ∃ x name y, ReflTransGen r.Holds a x ∧ r.HoldsAs x name y ∧ r.Loose x name y ∧ ReflTransGen r.Holds y b

/-- From struct to struct the order goes down, unless one on the way holds what was not there. -/
theorem Layered.path (h : r.Layered) (hpath : TransGen r.Holds a b) : r.order b < r.order a ∨ r.Loosens a b := by
  induction hpath with
  | @single b edge =>
      obtain ⟨name, hholds⟩ := edge
      refine (h.holdsAs hholds).imp_right fun hloose => ?_
      exact ⟨a, name, b, .refl, hholds, hloose, .refl⟩
  | @tail x b before edge ih =>
      rcases ih with hlt | ⟨y, name, z, hy, hholds, hloose, hrest⟩
      · obtain ⟨name, hholds⟩ := edge
        rcases h.holdsAs hholds with hlt' | hloose
        · exact .inl (Nat.lt_trans hlt' hlt)
        · exact .inr ⟨x, name, b, before.to_reflTransGen, hholds, hloose, .refl⟩
      · exact .inr ⟨y, name, z, hy, hholds, hloose, hrest.tail edge⟩

/-- Structs have finite layouts, except for what is declared before the struct that it needs. -/
structure Grounded (r : Registry) : Prop where
  /-- A struct has fields, or its aliases come to one that has none and was declared before what it stands for. -/
  fields : ∀ name, (r.struct? global name).isSome = true →
    r.Resolves name ∨ ∃ m, ReflTransGen r.StandsFor name m ∧ r.Forward m ∧ ¬r.Resolves m
  /-- On a circle of structs that hold each other, one holds what was not there when it was declared. -/
  circles : ∀ a, TransGen r.Holds a a → r.Loosens a a

theorem Layered.grounded (h : r.Layered) : r.Grounded where
  fields _ hname := resolves_or_forward hname
  circles _ hpath := (h.path hpath).resolve_left (Nat.lt_irrefl _)

end Registry

/-! ### Reading keeps structs in order -/

theorem Reading.Leads.layered {rd : Reading} {p : Nat} {reg reg₁ : Registry} (h : rd.Leads p reg reg₁)
    (wf : reg.WellFormed) (layered : reg.Layered) : reg₁.Layered := by
  induction h with
  | refl => exact layered
  | @step reg₁ reg₂ op before applies enters after ih =>
      have wf₁ := before.wellFormed wf
      have hx := Registry.extends_of_perform after
      rcases wf₁.structs_of_perform applies after with heq | ⟨id, s, rfl, heq, hnew⟩
      · exact ih.mono hx heq
      · obtain ⟨_, _, hfields⟩ := enters
        refine ih.entered heq hx hnew fun fields hlayout f hf c hheld => ?_
        obtain ⟨_, hmentions⟩ := (hfields fields hlayout).2 f hf
        exact (hmentions.held? hheld).imp_right fun htype => htype.cases wf₁

namespace Registry

theorem FromFiles.layered {reg : Registry} (h : reg.FromFiles) : reg.Layered := by
  induction h with
  | empty =>
      intro a c hc
      cases hc
  | @read reg _ source _ h after ih =>
      exact (read_settled h.reading rfl (fun _ => Source.tokens_names) after).1.layered h.invariant.1 ih

/-- In the registry behind an accepted program, structs have finite layouts, except for what was declared before
the struct that it needs. -/
theorem read_grounded {reg reg' : Registry} {source : Source} {p : Program} (h : reg.FromFiles)
    (hread : reg.read source = (.ok p, reg')) : reg'.Grounded :=
  (FromFiles.read h hread).layered.grounded

/-- Of the structs of an accepted program, `K` stands for one with a pointer to itself. All others break the order:
`X` and `A` have no fields, `S` holds itself, `P` holds an array of what goes by the name of the enum `E`, and `T`
holds a struct by the alias `Q`. -/
theorem read_grounded_circles :
    let source : Source := ⟨0, "unit.st",
      "struct N \x7b n: *N; \x7d struct K = N;
      struct X = Y; struct A = B; struct B = A; struct S \x7b s: S; \x7d
      enum E \x7b M: 1 \x7d struct P \x7b e: E[2]; \x7d struct E \x7b p: P; \x7d
      struct Q = R; struct T \x7b q: Q; \x7d struct R \x7b t: T?; \x7d"⟩
    ∃ p reg, Registry.empty.read source = (.ok p, reg) ∧ reg.Grounded ∧ reg.Resolves "K" ∧
      (∀ name ∈ ["X", "A"], (reg.struct? global name).isSome = true ∧ ¬reg.Resolves name) ∧
      ∀ name ∈ ["S", "P", "T"], TransGen reg.Holds name name := by
  intro source
  obtain ⟨p, reg, hread, hout⟩ := exists_of_read .empty source (by rfl)
    (fun p reg => decide (reg.Resolves "K" ∧
      (∀ name ∈ ["X", "A"], (reg.struct? global name).isSome = true ∧ ¬reg.Resolves name) ∧
      (∀ name ∈ ["S", "P", "E", "T", "R"], (reg.ownFields? name).isSome = true) ∧
      "S" ∈ reg.heldIn "S" ∧ "E" ∈ reg.heldIn "P" ∧ "P" ∈ reg.heldIn "E" ∧
      "Q" ∈ reg.heldIn "T" ∧ "T" ∈ reg.heldIn "R" ∧ reg.StandsFor "Q" "R")) (x := true) (by decide +kernel)
  obtain ⟨hK, hfail, own, hS, hP, hE, hT, hR, hQ⟩ := of_decide_eq_true hout
  have holds {a b : String} (hheld : b ∈ reg.heldIn a) (hb : b ∈ ["S", "P", "E", "T", "R"]) : reg.Holds a b :=
    ⟨b, hheld, .refl, own b hb⟩
  have through : reg.Holds "T" "R" := ⟨"Q", hT, .single hQ, own "R" (by simp)⟩
  refine ⟨p, reg, hread, read_grounded .empty hread, hK, hfail, fun name hname => ?_⟩
  simp only [List.mem_cons, List.not_mem_nil, or_false] at hname
  rcases hname with rfl | rfl | rfl
  · exact .single (holds hS (by simp))
  · exact .tail (.single (holds hP (by simp))) (holds hE (by simp))
  · exact .tail (.single through) (holds hR (by simp))

end Registry

end OnePass
