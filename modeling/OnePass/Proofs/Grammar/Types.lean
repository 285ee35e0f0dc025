import OnePass.Proofs.Grammar.Formed

/-!
Paths and types as they are read. A path has words for its segments, and a type is one that may be
written: its marks are on the outside, and its names are those of structs and enums.
-/

namespace OnePass
namespace Grammar

open Reading

variable {V : View} {hi : Nat} {r : Region}

/-- A path was read from a region: its segments, the tokens that spell it, and where it begins. -/
structure PathRead (V : View) (hi : Nat) (r : Region) (s : Step r (List String × Span)) : Prop where
  spelt : ∃ ts, Spells ts s.1.1 ∧ r.pending = ts ++ s.2.pending
  path : IsPath V.token s.1.1
  head : r.head.span.Begins V.tokens (r.front hi)
  begins : s.1.2.Begins V.tokens (r.front hi)
  rest : s.2.Faces V hi

/-- The first segments of a path have been read, and `r'` is left. -/
structure PathTo (V : View) (hi : Nat) (r r' : Region) (segments : List String) : Prop where
  spelt : ∃ ts, Spells ts segments ∧ r.pending = ts ++ r'.pending
  front_le : r.front hi ≤ r'.front hi
  begins : r'.last.Begins V.tokens (r.front hi)
  rest : r'.Faces V hi

theorem PathTo.first (hr : r.Faces V hi) {t : Token} {r₁ : Left r}
    (h : r.accept? .identifier = some (t, r₁)) : PathTo V hi r r₁ [t.lexeme] := by
  obtain ⟨hk, hplace, hr₁⟩ := hr.accept? h
  obtain ⟨_, hlast, _⟩ := Region.accept?_eq_some h
  exact ⟨⟨[t], .name hk, Region.accept?_pending (by decide) h⟩, r₁.front_le hi,
    ⟨_, t, Nat.le_refl _, hplace, by rw [hlast]⟩, hr₁⟩

theorem PathTo.next {r' : Region} {segments : List String} (h : PathTo V hi r r' segments) {c t : Token}
    {r₁ r₂ : Left r'} (hcolons : r'.accept? .colonColon = some (c, r₁))
    (hname : r₁.accept? .identifier = some (t, r₂)) :
    PathTo V hi r r₂ (segments ++ [t.lexeme]) := by
  obtain ⟨⟨ts, hspells, hpending⟩, hle, _, hr'⟩ := h
  obtain ⟨hc, _, hr₁⟩ := hr'.accept? hcolons
  obtain ⟨hk, hplace, hr₂⟩ := r₁.accept?_took hr₁ hname
  obtain ⟨rest, hname, heq⟩ := Left.accept?_eq_some hname
  obtain ⟨_, hlast, _⟩ := Region.accept?_eq_some hname
  refine ⟨⟨ts ++ [c, t], hspells.next hc hk, ?_⟩, Nat.le_trans hle (r₂.front_le hi), ?_, hr₂⟩
  · rw [hpending, Region.accept?_pending (by decide) hcolons, Region.accept?_pending (by decide) hname, heq,
      List.append_assoc]
    rfl
  · exact ⟨_, t, Nat.le_trans hle (r₁.front_le hi), hplace, by rw [heq, hlast]⟩

/-- The path has been read to its end. -/
theorem PathTo.read (hr : r.Faces V hi) {segments : List String} {first : Token} {r₁ r₂ : Left r}
    (hfirst : r.accept? .identifier = some (first, r₁)) (h : PathTo V hi r r₂ segments) :
    PathRead V hi r ((segments, r₂.spanFrom first.span), r₂) := by
  obtain ⟨⟨ts, hspells, hpending⟩, _, hbegins, hr₂⟩ := h
  obtain ⟨_, hplace, _⟩ := hr.accept? hfirst
  obtain ⟨_, _, _, ahead, _⟩ := Region.accept?_eq_some hfirst
  have hbegin : first.span.Begins V.tokens (r.front hi) := ⟨_, first, Nat.le_refl _, hplace, rfl⟩
  have hhead : r.head = first := by rw [Region.head, ahead, List.headD_cons]
  refine ⟨⟨ts, hspells, hpending⟩, hspells.isPath fun t ht => ?_, hhead ▸ hbegin, hbegin.merge hbegins, hr₂⟩
  have hpending : t ∈ r.pending := hpending ▸ List.mem_append_left _ ht
  exact hr.known t (List.mem_of_mem_filter hpending)

theorem segment_yields {r' : Region} {segments : List String} (h : PathTo V hi r r' segments) :
    Logic.except.Holds (segment segments r') ()
      (Logic.except.Keeps (fun r' segments _ => PathTo V hi r r' segments) r' segments) := by
  unfold segment
  split
  · rename_i c r₁ hcolon
    split
    · rename_i t r₂ hname
      dsimp only
      split
      · exact Yields.error
      · exact Yields.pure (h.next hcolon hname)
    · exact Yields.pure h
  · exact Yields.pure h

theorem path_yields {what : String} (hr : r.Faces V hi) :
    Yields (path r what) (PathRead V hi r) := by
  unfold path
  refine Yields.bind (fun _ => Region.accept?_of_takeOr) fun ⟨first, r₁⟩ hfirst => ?_
  refine Yields.bind (Logic.except.leftLoop (s := ()) (fun r₀ _ segments _ h => segment_yields h)
    (PathTo.first hr hfirst)) fun ⟨segments, r₂⟩ hpath => ?_
  exact Yields.pure (hpath.read hr hfirst)

/-! ### Types -/

section Found

variable {reg : Registry} {id : ScopeId} {name internal : String}

theorem exists_of_markerName? (h : reg.markerName? id name = some internal) :
    ∃ a symbol kind, .marker symbol kind ∈ reg.definitions a ∧ kind ≠ .enumMember ∧
      symbol.internal = internal := by
  have known {symbol : Symbol} {kind : MarkerKind} (hd : reg.definition? id name = some (.marker symbol kind)) :
      ∃ a, .marker symbol kind ∈ reg.definitions a := by
    obtain ⟨a, _, ha⟩ := List.mem_flatMap.mp (List.mem_of_find?_eq_some hd)
    exact ⟨a, ha⟩
  unfold Registry.markerName? at h
  split at h
  · obtain ⟨a, ha⟩ := known ‹_›
    exact ⟨a, _, _, ha, by decide, Option.some.inj h⟩
  · obtain ⟨a, ha⟩ := known ‹_›
    exact ⟨a, _, _, ha, by decide, Option.some.inj h⟩
  · cases h

theorem markerName?_named {T : Token → Prop} (hreg : reg.Tidy T)
    (h : reg.markerName? id name = some internal) : Named T internal := by
  obtain ⟨a, _, _, ha, hk, rfl⟩ := exists_of_markerName? h
  exact hreg.mentions a _ ha hk

theorem hasType_of_markerName? (h : reg.markerName? id name = some internal) : reg.HasType internal := by
  obtain ⟨a, _, _, ha, hk, rfl⟩ := exists_of_markerName? h
  exact ⟨a, _, ha, by simpa [Definition.isType] using hk, rfl⟩

/-- A struct that is found is there, unless it is the one that is being declared. -/
theorem hasType_of_structName? {declaring : Option String}
    (h : reg.structName? id declaring name = some internal) :
    declaring = some internal ∨ reg.HasType internal := by
  have found := List.find?_some (p := fun c => declaring == some c || (reg.struct? id c).isSome) h
  rw [Bool.or_eq_true, beq_iff_eq] at found
  refine found.imp_right fun hs => ?_
  obtain ⟨s, hs⟩ := Option.isSome_iff_exists.mp hs
  obtain ⟨d, hd, hstruct⟩ := List.mem_filterMap.mp (List.mem_of_find?_eq_some hs)
  obtain ⟨a, _, ha⟩ := List.mem_flatMap.mp hd
  have known := List.find?_some (p := fun s : Struct => s.symbol.internal == internal) hs
  cases d <;> cases hstruct
  exact ⟨a, _, ha, rfl, beq_iff_eq.mp known⟩

end Found

/-- All that a path is found to stand for has a property. -/
def TypeSetting.Finds (s : TypeSetting) (T : Token → Prop) (N : String → Prop) : Prop :=
  ∀ segments internal, IsPath T segments →
    (s.reg.structName? s.scope s.declaring (Name.qualified segments)).or
      (s.reg.markerName? s.scope (Name.qualified segments)) = some internal → N internal

theorem TypeSetting.finds_named {s : TypeSetting} {T : Token → Prop} (hreg : s.reg.Tidy T) :
    s.Finds T (Named T) := by
  intro segments internal hpath hfound
  rcases Option.or_eq_some_iff.mp hfound with hs | ⟨_, hm⟩
  · exact structName?_named hreg hpath.named hs
  · exact markerName?_named hreg hm

variable {N : String → Prop}

/-- A type without marks on its outside, and what is left. -/
def BaseRead (V : View) (N : String → Prop) (hi : Nat) (s : Step r Ty) : Prop :=
  s.2.Faces V hi ∧ s.1.flags = .plain ∧ s.1.Spelt N

/-- A type with its marks, and what is left. -/
def TypeRead (V : View) (N : String → Prop) (hi : Nat) (s : Step r Ty) : Prop :=
  s.2.Faces V hi ∧ s.1.Written N

theorem typeMark_faces (hr : r.Faces V hi) : (typeMark r).2.Faces V hi ∧ (typeMark r).1.Marks := by
  unfold typeMark
  split
  · rename_i hstar
    exact ⟨(hr.accept? hstar).2.2, by simp, rfl, rfl, rfl⟩
  · rename_i hamp
    exact ⟨(hr.accept? hamp).2.2, by simp, rfl, rfl, rfl⟩
  · exact ⟨hr, .plain⟩

theorem primitiveType_yields (hr : r.Faces V hi) : Yields (primitiveType r) (BaseRead V N hi) := by
  unfold primitiveType
  refine Yields.bind (fun _ => hr.takeOr) fun ⟨t, rest⟩ ⟨_, _, hrest⟩ => ?_
  dsimp only
  split
  · rename_i p hp
    refine Yields.pure ⟨hrest, rfl, ?_⟩
    have known : p ≠ .nil ∧ p ≠ .unknown := by
      obtain ⟨before, after, he, _⟩ := List.lookup_eq_some_iff.mp hp
      have all : ∀ w ∈ Primitive.words, w.2 ≠ .nil ∧ w.2 ≠ .unknown := by decide
      exact all (t.lexeme, p) (he ▸ by simp)
    exact ⟨known.1, known.2, rfl⟩
  · exact Yields.error

theorem namedType_yields {s : TypeSetting} {what : String} (hr : r.Faces V hi) (hfinds : s.Finds V.token N) :
    Yields (namedType s r what) (BaseRead V N hi) := by
  unfold namedType
  refine Yields.bind (path_yields hr) fun ⟨⟨segments, span⟩, rest⟩ ⟨_, hpath, _, _, hrest⟩ => ?_
  dsimp only
  split
  · rename_i internal hi
    exact Yields.pure ⟨hrest, rfl, hfinds segments internal hpath hi⟩
  · exact Yields.error

theorem functionType_yields {inner : TypesBelow r} (hr : r.Faces V hi)
    (hinner : ∀ hi r' h what, r'.Faces V hi → Yields (inner r' h what) (TypeRead V N hi)) :
    Yields (functionType r inner) (BaseRead V N hi) := by
  unfold functionType
  refine Yields.bind (fun _ => hr.carve) fun ⟨params, r₁⟩ ⟨mid, carved⟩ => ?_
  have items : Yields (params.items r.size_le fun r₀ h₀ _ => inner r₀ h₀ "parameter type") _ :=
    Logic.except.leftItems (R := fun r _ => r.Faces V mid)
      (fun _ l _ _ hl hcomma => (l.accept?_took hl hcomma).2.2) (s := ())
      (I := fun types _ => ∀ t ∈ types, t.Written N) ?_ carved.inner (by simp)
  · refine Yields.bind items fun types ⟨_, htypes⟩ => ?_
    have hr₁ : r₁.Faces V hi := carved.resumes rfl carved.inner.done
    refine Yields.bind (fun _ => r₁.takeNamed_took hr₁) fun ⟨_, r₂⟩ ⟨_, _, hr₂⟩ => ?_
    refine Yields.bind (P := TypeRead V N hi) (Yields.map (hinner hi r₂ _ _ hr₂))
      fun ⟨result, r₃⟩ ⟨hr₃, hresult⟩ => ?_
    exact Yields.pure ⟨hr₃, rfl, Ty.writtenAll_iff.mpr htypes, hresult⟩
  · intro r₀ h₀ before _ hr₀ hbefore out hout
    obtain ⟨hrest, htype⟩ := hinner mid r₀ h₀ _ hr₀ out hout
    refine ⟨hrest, fun t ht => ?_⟩
    rcases List.mem_append.mp ht with ht | ht
    · exact hbefore t ht
    · exact List.mem_singleton.mp ht ▸ htype

theorem arraySuffix_yields {s : TypeSetting} {element : Ty} (hr : r.Faces V hi)
    (he : element.flags = .plain ∧ element.Spelt N) :
    Logic.except.Holds (arraySuffix s element r) () (Logic.except.Keeps
      (fun r t _ => r.Faces V hi ∧ t.flags = .plain ∧ t.Spelt N) r element) := by
  unfold arraySuffix
  split
  · rename_i r₁ h₁
    have hr₁ := (hr.accept? h₁).2.2
    split
    · rename_i r₂ h₂
      exact Yields.pure ⟨(r₁.accept?_took hr₁ h₂).2.2, rfl, he⟩
    · split
      · rename_i t r₂ h₂
        have hr₂ := (r₁.accept?_took hr₁ h₂).2.2
        split
        · rename_i r₃ h₃
          split
          · exact Yields.pure ⟨(r₂.accept?_took hr₂ h₃).2.2, rfl, he⟩
          · exact Yields.error
        · exact Yields.pure ⟨hr, he⟩
      · exact Yields.pure ⟨hr, he⟩
  · exact Yields.pure ⟨hr, he⟩

theorem baseType_yields {s : TypeSetting} {inner : TypesBelow r} {what : String} (hr : r.Faces V hi)
    (hfinds : s.Finds V.token N)
    (hinner : ∀ hi r' h what, r'.Faces V hi → Yields (inner r' h what) (TypeRead V N hi)) :
    Yields (baseType s r inner what) (BaseRead V N hi) := by
  unfold baseType
  split
  · exact primitiveType_yields hr
  · exact namedType_yields hr hfinds
  · exact functionType_yields hr hinner
  · exact Yields.error

theorem typeFrom_yields {s : TypeSetting} {inner : TypesBelow r} {what : String} (hr : r.Faces V hi)
    (hfinds : s.Finds V.token N)
    (hinner : ∀ hi r' h what, r'.Faces V hi → Yields (inner r' h what) (TypeRead V N hi)) :
    Yields (typeFrom s r inner what) (TypeRead V N hi) := by
  have hmarked := typeMark_faces hr
  unfold typeFrom
  generalize typeMark r = marked at hmarked ⊢
  obtain ⟨mark, r₁⟩ := marked
  obtain ⟨hr₁, hmark⟩ := hmarked
  refine Yields.bind (P := BaseRead V N hi) (Yields.map (baseType_yields hr₁ hfinds fun hi r' _ => hinner hi r' _))
    fun ⟨base, r₂⟩ ⟨hr₂, hbase⟩ => ?_
  refine Yields.bind (Logic.except.leftLoop (s := ())
    (fun r _ v _ h => arraySuffix_yields h.1 h.2) ⟨hr₂, hbase⟩) fun ⟨type, r₃⟩ ⟨hr₃, hplain, htype⟩ => ?_
  refine Yields.pure ⟨r₃.optional_faces hr₃, ?_, Ty.spelt_setFlags.mpr htype⟩
  rw [Ty.withFlags, hplain, Ty.flags_setFlags]
  exact ⟨by simpa [Flags.union, Flags.plain] using hmark.single, hmark.mutable, hmark.global,
    hmark.variadic⟩

theorem typeUpTo_yields {s : TypeSetting} (hfinds : s.Finds V.token N) {n : Nat} {h : r.size < n}
    {what : String} (hr : r.Faces V hi) : Yields (typeUpTo s n r h what) (TypeRead V N hi) := by
  induction n generalizing hi r what with
  | zero => exact absurd h Region.not_lt_zero
  | succ n ih => exact typeFrom_yields hr hfinds fun _ r' _ what hr' => ih hr'

theorem type_finds {s : TypeSetting} {what : String} (hfinds : s.Finds V.token N) (hr : r.Faces V hi) :
    Yields (type s r what) (TypeRead V N hi) :=
  typeUpTo_yields hfinds hr

theorem type_yields {s : TypeSetting} {what : String} (hreg : s.reg.Tidy V.token) (hr : r.Faces V hi) :
    Yields (type s r what) (TypeRead V (Named V.token) hi) :=
  type_finds (TypeSetting.finds_named hreg) hr

end Grammar
end OnePass
