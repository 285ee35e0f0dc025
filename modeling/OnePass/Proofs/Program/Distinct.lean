import OnePass.Proofs.Program.Overload

/-!
Overloads are told apart. What a function is known by can be read back: the name ends at the first
parenthesis, and the shapes of the parameters behind it are those of one list of types only, as long as the
types are written ones. Nothing is lost but the lengths of arrays, which have no place in a type's text.
-/

namespace OnePass

/-! ### Reading a written type back -/

/-- The flags that marks in front of a type and suffixes behind it stand for. -/
def Flags.ofMarks (marks suffixes : List Char) : Flags where
  pointer := marks.contains '*'
  reference := marks.contains '&'
  optional := suffixes.contains '?'

theorem Flags.Marks.ofMarks_eq {f : Flags} (h : f.Marks) :
    Flags.ofMarks f.opening.toList f.closing.toList = f := by
  obtain ⟨pointer, reference, mutable, optional, global, variadic⟩ := f
  obtain ⟨_, hm, hg, hv⟩ := h
  obtain rfl : mutable = false := hm
  obtain rfl : global = false := hg
  obtain rfl : variadic = false := hv
  revert pointer reference optional
  decide

theorem Flags.Marks.eq_plain {f : Flags} (h : f.Marks) (he : ¬f.enclose = true) : f = .plain := by
  obtain ⟨pointer, reference, mutable, optional, global, variadic⟩ := f
  obtain ⟨_, hm, hg, hv⟩ := h
  obtain ⟨⟨rfl, rfl⟩, rfl⟩ : (pointer = false ∧ reference = false) ∧ optional = false := by
    simpa [enclose] using he
  simp only at hm hg hv
  rw [hm, hg, hv]
  rfl

namespace Shape

mutual

/-- The type that is read from a text, with its marks and without lengths. -/
def marked : Shape → Ty
  | word marks name suffixes => (bracketed suffixes (base name)).setFlags (.ofMarks marks suffixes)
  | arrow _ params result => .function (allMarked params) result.marked .plain
  | group marks inner suffixes =>
    (bracketed suffixes (inner.marked.setFlags .plain)).setFlags (.ofMarks marks suffixes)

def allMarked : List Shape → List Ty
  | [] => []
  | s :: ss => s.marked :: allMarked ss

end

/-- What stands behind a name or a closing parenthesis. -/
def tail : Shape → List Char
  | word _ _ suffixes | group _ _ suffixes => suffixes
  | arrow .. => []

/-- Neither marks nor a question mark, and brackets would belong to all of it. -/
structure Plain (s : Shape) : Prop where
  isArrow : s.isArrow = false
  marks : s.marks = []
  tail : s.tail.contains '?' = false

theorem Plain.suffix {s : Shape} (h : s.Plain) {x : List Char} (hx : x.contains '?' = false) :
    (s.suffix x).Plain := by
  obtain ⟨harrow, hmarks, htail⟩ := h
  cases s with
  | word | group =>
      refine ⟨rfl, hmarks, ?_⟩
      rw [Shape.suffix, Shape.tail, List.contains_append, hx, Bool.or_false]
      exact htail
  | arrow => cases harrow

theorem suffix_suffix (a b : List Char) : (s : Shape) → (s.suffix a).suffix b = s.suffix (a ++ b)
  | word .. | group .. => by simp only [suffix, List.append_assoc]
  | arrow _ _ result => by simp only [suffix, suffix_suffix a b result]

theorem bracketed_append (a b : List Char) (t : Ty) : bracketed (a ++ b) t = bracketed b (bracketed a t) :=
  List.foldl_append

theorem mark_nil (s : Shape) : s.mark [] = s := by
  cases s <;> rfl

end Shape

namespace Ty

theorem flags_base (name : List Char) : (Shape.base name).flags = .plain := by
  unfold Shape.base
  split <;> rfl

theorem flags_bracketed (suffixes : List Char) {t : Ty} (h : t.flags = .plain) :
    (Shape.bracketed suffixes t).flags = .plain := by
  unfold Shape.bracketed
  induction suffixes generalizing t with
  | nil => exact h
  | cons c cs ih =>
      rw [List.foldl_cons]
      refine ih ?_
      split
      · rfl
      · exact h

end Ty

/-- Marks and suffixes around a plain text are those of the whole. -/
theorem Shape.Plain.marked {s : Shape} (h : s.Plain) (m x : List Char) :
    ((s.suffix x).mark m).marked = (bracketed x s.marked).setFlags (.ofMarks m x) := by
  obtain ⟨harrow, hmarks, htail⟩ := h
  have flags (sfx : List Char) (h : sfx.contains '?' = false) :
      Flags.ofMarks [] sfx = .plain ∧ Flags.ofMarks (m ++ []) (sfx ++ x) = .ofMarks m x := by
    constructor
    · rw [Flags.ofMarks, h]
      rfl
    · rw [Flags.ofMarks, Flags.ofMarks, List.append_nil, List.contains_append, h, Bool.false_or]
  cases s with
  | word marks name sfx =>
      obtain rfl : marks = [] := hmarks
      obtain ⟨hplain, hboth⟩ := flags sfx htail
      simp only [Shape.suffix, mark, Shape.marked, hplain, hboth, bracketed_append,
        Ty.setFlags_of_flags (Ty.flags_bracketed sfx (Ty.flags_base name))]
  | group marks inner sfx =>
      obtain rfl : marks = [] := hmarks
      obtain ⟨hplain, hboth⟩ := flags sfx htail
      simp only [Shape.suffix, mark, Shape.marked, hplain, hboth, bracketed_append,
        Ty.setFlags_of_flags (Ty.flags_bracketed sfx (Ty.flags_setFlags inner.marked .plain))]
  | arrow => cases harrow

namespace Ty

mutual

/-- A type without the lengths of its arrays. -/
def unsized : Ty → Ty
  | primitive k w f => primitive k w f
  | named n f => named n f
  | array e _ f => array e.unsized 0 f
  | function ps r f => function (allUnsized ps) r.unsized f

def allUnsized : List Ty → List Ty
  | [] => []
  | t :: ts => t.unsized :: allUnsized ts

end

theorem allUnsized_eq_map (ts : List Ty) : allUnsized ts = ts.map unsized := by
  induction ts with
  | nil => rfl
  | cons t ts ih => rw [allUnsized, List.map_cons, ih]

theorem flags_unsized (t : Ty) : t.unsized.flags = t.flags := by
  cases t <;> simp only [unsized, flags]

variable {N : String → Prop}

theorem elementShape_plain (e : Ty) (h : e.flags = .plain) (hs : e.Spelt N) : e.elementShape.Plain := by
  match e with
  | primitive k w f | named n f =>
      obtain rfl : f = .plain := h
      exact ⟨rfl, rfl, rfl⟩
  | array e l f =>
      obtain rfl : f = .plain := h
      rw [elementShape, if_neg (by simp [isFunction]), shape_array]
      have inner := elementShape_plain e hs.1 hs.2
      exact (Shape.mark_nil _).symm ▸ (inner.suffix rfl).suffix rfl
  | function ps r f =>
      rw [elementShape, if_pos (by simpa [isFunction, flags] using h)]
      exact ⟨rfl, rfl, rfl⟩

theorem marked_elementShape {e : Ty} (h : e.shape.marked.flags = .plain) :
    e.elementShape.marked = e.shape.marked := by
  unfold elementShape
  split
  · rw [Shape.marked]
    exact (setFlags_of_flags (flags_setFlags _ _)).trans (setFlags_of_flags h)
  · rfl

mutual

/-- A written type is read back from its shape. -/
theorem marked_shape (t : Ty) (h : t.Written (Named Token.Names)) : t.shape.marked = t.unsized := by
  obtain ⟨hmarks, hs⟩ := h
  have flags := hmarks.ofMarks_eq
  match t with
  | primitive k w f =>
      obtain ⟨_, hknown, rfl⟩ := hs
      rw [shape, Shape.marked, bracketed_closing, base_name hknown, unsized]
      exact congrArg (primitive k k.width) flags
  | named n f =>
      rw [shape, Shape.marked, bracketed_closing, base_named hs, unsized]
      exact congrArg (named n) flags
  | array e l f =>
      obtain ⟨hplain, he⟩ := hs
      have element : e.shape.marked = e.unsized := marked_shape e ⟨hplain ▸ .plain, he⟩
      rw [shape_array, Shape.suffix_suffix, (elementShape_plain e hplain he).marked,
        marked_elementShape (by rw [element, flags_unsized, hplain]), element, unsized]
      have brackets : Shape.bracketed (['[', ']'] ++ f.closing.toList) e.unsized = array e.unsized 0 .plain :=
        bracketed_closing f _
      rw [brackets]
      exact congrArg (array e.unsized 0) flags
  | function ps r f =>
      obtain ⟨hps, hr⟩ := hs
      have arrow (m : List Char) : (Shape.arrow m (shapes ps) r.shape).marked =
          function (allUnsized ps) r.unsized .plain := by
        rw [Shape.marked, allMarked_shapes ps hps, marked_shape r hr]
      rw [shape, unsized]
      split
      · rw [Shape.marked, bracketed_closing, arrow]
        exact congrArg (function (allUnsized ps) r.unsized) flags
      · rename_i hbare
        have plain : f = .plain := hmarks.eq_plain hbare
        rw [arrow, plain]

theorem allMarked_shapes (ts : List Ty) (h : WrittenAll (Named Token.Names) ts) :
    Shape.allMarked (shapes ts) = allUnsized ts := by
  match ts with
  | [] => simp only [shapes, Shape.allMarked, allUnsized]
  | t :: ts => rw [shapes, Shape.allMarked, allUnsized, marked_shape t h.1, allMarked_shapes ts h.2]

end

/-- Written types that are spelt alike differ in nothing but the lengths of arrays. -/
theorem unsized_eq_of_join {ts us : List Ty} (ht : WrittenAll (Named Token.Names) ts)
    (hu : WrittenAll (Named Token.Names) us)
    (h : (join "," (texts ts)).toList ++ [')'] = (join "," (texts us)).toList ++ [')']) :
    ts.map unsized = us.map unsized := by
  have shapes := shapes_eq_of_join (mentionsAll_of_writtenAll ht) (mentionsAll_of_writtenAll hu) h
  rw [← allUnsized_eq_map, ← allUnsized_eq_map, ← allMarked_shapes ts ht, shapes, allMarked_shapes us hu]

end Ty

/-! ### Names -/

/-- No reserved word has an underscore in it. -/
theorem Token.Kind.ofWord?_eq_none {w : String} (h : '_' ∈ w.toList) : Kind.ofWord? w = none := by
  have unknown {α : Type} {table : List (String × α)} (free : ∀ entry ∈ table, '_' ∉ entry.1.toList) :
      table.lookup w = none := by
    refine List.lookup_eq_none_iff.mpr fun entry hentry => ?_
    refine bne_iff_ne.mpr ?_
    rintro rfl
    exact free entry hentry h
  rw [Kind.ofWord?, unknown (by decide), Primitive.ofWord?, unknown (by decide)]
  rfl

/-- Words with separators between them are words. -/
theorem isWord_iff_named {n : String} : IsWord n ↔ Named Token.Names n := by
  constructor
  · intro h
    exact .word ⟨⟨.identifier, n, .ofLength 0 0 0⟩, fun _ => h, rfl, rfl⟩
  · intro h
    refine ⟨h.nonempty, h.chars, ?_⟩
    cases h with
    | word h =>
        obtain ⟨t, ht, hk, rfl⟩ := h
        exact (ht hk).free
    | within => exact Token.Kind.ofWord?_eq_none (by simp [Name.separator])

/-! ### Keys -/

theorem Grammar.type_written {s : TypeSetting} {r : Region} {what : String} (hreg : s.reg.Tidy Token.Names)
    (hr : ∀ t ∈ r.ahead, t.Names) {t : Ty} {l : Left r} (h : type s r what = .ok (t, l)) :
    t.Written (Named Token.Names) := by
  let V : View := ⟨Token.Names, r.ahead, hr, fun _ => True, fun _ _ => trivial⟩
  have whole : r.ahead.take r.size = r.ahead := List.take_length
  have faces : r.Faces V r.size := ⟨Nat.le_refl _, whole.symm ▸ List.suffix_rfl, trivial⟩
  exact (type_yields hreg faces _ h).2

namespace Name

/-- What a function is known by tells its name and the types of its parameters, the lengths of arrays apart;
it does so for all types that can be read from a text. -/
theorem overload_tells :
    (∀ {source : Source} {ts : List Token}, source.tokens = .ok ts →
      ∀ {s : Grammar.TypeSetting} {r : Region} {what : String} {t : Ty} {l : Left r},
        s.reg.Tidy Token.Names → (∀ u ∈ r.ahead, u ∈ ts) → Grammar.type s r what = .ok (t, l) →
          t.Written IsWord) ∧
    ∀ {q₁ q₂ : String} {ps₁ ps₂ : List Ty},
      (∀ c ∈ q₁.toList, Token.Scan.isWordChar c = true) →
      (∀ c ∈ q₂.toList, Token.Scan.isWordChar c = true) →
      q₁ ≠ "main" → q₂ ≠ "main" → (∀ p ∈ ps₁, p.Written IsWord) → (∀ p ∈ ps₂, p.Written IsWord) →
      overload q₁ ps₁ false = overload q₂ ps₂ false →
        q₁ = q₂ ∧ List.Forall₂ (fun p₁ p₂ => p₁.unsized = p₂.unsized) ps₁ ps₂ := by
  have words : IsWord = Named Token.Names := funext fun n => propext isWord_iff_named
  rw [words]
  refine ⟨fun hs => fun hreg hr => Grammar.type_written hreg fun u hu => Source.tokens_names hs u (hr u hu),
    fun hq₁ hq₂ hm₁ hm₂ hp₁ hp₂ h => ?_⟩
  obtain ⟨hname, htexts⟩ := parts_of_overload hq₁ hq₂ hm₁ hm₂ h
  have unsized := Ty.unsized_eq_of_join (Ty.writtenAll_iff.mpr hp₁) (Ty.writtenAll_iff.mpr hp₂) htexts
  refine ⟨hname, List.forall₂_map_left_iff.mp (List.forall₂_map_right_iff.mp ?_)⟩
  rw [unsized]
  exact List.forall₂_same.mpr fun _ _ => rfl

/-- Two texts of one type, with lengths and without. -/
theorem overload_tells_lengths :
    let sized : Source := ⟨0, "sized.st", "(i32[2], &u8) -> *bool[4]?"⟩
    let free : Source := ⟨1, "free.st", "(int32[], & uint8) -> *bool[]?"⟩
    let read (source : Source) (t : Ty) : Prop := ∃ ts l, source.tokens = .ok ts ∧
      Grammar.type ⟨.empty, source, Registry.global, none⟩ (.ofTokens source ts) "type" = .ok (t, l)
    ∃ t u, read sized t ∧ read free u ∧ t.Written IsWord ∧ u.Written IsWord ∧
      overload "m__f" [t] false = overload "m__f" [u] false ∧ t.unsized = u.unsized := by
  intro sized free read
  have reads (source : Source) (text : String)
      (h : (source.tokens.toOption.bind fun ts => (Grammar.type ⟨.empty, source, Registry.global, none⟩
        (.ofTokens source ts) "type").toOption.map (·.1.text)) = some text) :
      ∃ t, read source t ∧ t.Written IsWord ∧ t.text = text := by
    obtain ⟨ts, hts, h⟩ := Option.bind_eq_some_iff.mp h
    obtain ⟨⟨t, l⟩, ht, rfl⟩ := Option.map_eq_some_iff.mp h
    have succeeds {α : Type} {x : Except Diagnostic α} {a : α} (h : x.toOption = some a) : x = .ok a := by
      cases x <;> cases h
      rfl
    have hts := succeeds hts
    have ht := succeeds ht
    refine ⟨t, ⟨ts, l, hts, ht⟩, overload_tells.1 hts .empty (fun u hu => ?_) ht, rfl⟩
    exact (List.takeWhile_sublist _).subset ((Region.settle_suffix _).subset hu)
  obtain ⟨t, ht, hwt, htext⟩ := reads sized "(i32[], &u8) -> *bool[]?" (by decide +kernel)
  obtain ⟨u, hu, hwu, hutext⟩ := reads free "(i32[], &u8) -> *bool[]?" (by decide +kernel)
  have key : overload "m__f" [t] false = overload "m__f" [u] false := by
    simp only [overload, Ty.texts, htext, hutext]
  have word : ∀ c ∈ "m__f".toList, Token.Scan.isWordChar c = true := List.all_eq_true.mp (by decide)
  have tells := overload_tells.2 word word (by decide) (by decide) (List.forall_mem_singleton.mpr hwt)
    (List.forall_mem_singleton.mpr hwu) key
  exact ⟨t, u, ht, hu, hwt, hwu, key, (List.forall₂_cons.mp tells.2).1⟩

end Name

end OnePass
