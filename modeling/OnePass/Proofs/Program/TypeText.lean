import OnePass.Proofs.Program.Distinct
import OnePass.Proofs.Program.Progress
import OnePass.Proofs.Program.Resolution
import OnePass.Proofs.Registry.Modules
import OnePass.Proofs.Ty.Printed

/-!
Types that are printed and read again. A mark in front and a question mark behind belong to the whole, brackets to
what has been read up to them, and whatever is behind an arrow to the result. So the text of a type is read as that
type, without the lengths of its arrays, as long as function types have no marks and are in no arrays. The names in
it are those that structs are known by; from the global scope each of these is found under itself.
-/

namespace OnePass

open Token (Kind)

/-! ### Tokens one by one -/

namespace Region

variable {r : Region} {t : Token} {ts : List Token} {k : Kind}

/-- There are no comments among the tokens. -/
def Uncommented (ts : List Token) : Prop := ∀ t ∈ ts, t.isComment = false

theorem Uncommented.settle (h : Uncommented ts) : settle ts = ts := by
  cases ts with
  | nil => rfl
  | cons t ts => exact List.dropWhile_cons_of_neg (by simp [h t List.mem_cons_self])

theorem Uncommented.tail (h : Uncommented (t :: ts)) : Uncommented ts := fun u hu => h u (List.mem_cons_of_mem _ hu)

theorem accept?_of_cons (hr : Uncommented r.ahead) (ha : r.ahead = t :: ts) (hk : t.kind = k) :
    ∃ l : Left r, r.accept? k = some (t, l) ∧ l.ahead = ts := by
  obtain ⟨l, hnext, hl⟩ := next?_eq_some ha
  refine ⟨l, by simp [accept?, hnext, hk], ?_⟩
  rw [hl]
  exact (ha ▸ hr).tail.settle

theorem takeOr_of_cons (fault : Fault) (hr : Uncommented r.ahead) (ha : r.ahead = t :: ts) (hk : t.kind = k) :
    ∃ l : Left r, r.takeOr k fault = .ok (t, l) ∧ l.ahead = ts := by
  obtain ⟨l, haccept, hl⟩ := accept?_of_cons hr ha hk
  exact ⟨l, by rw [takeOr, haccept], hl⟩

end Region

namespace Left

variable {r : Region} {l : Left r} {t : Token} {ts : List Token} {k : Kind}

theorem accept?_of_cons (hl : Region.Uncommented l.ahead) (ha : l.ahead = t :: ts) (hk : t.kind = k) :
    ∃ l' : Left r, l.accept? k = some (t, l') ∧ l'.ahead = ts := by
  obtain ⟨l', haccept, hl'⟩ := Region.accept?_of_cons hl ha hk
  exact ⟨l.left l', by rw [Left.accept?, haccept]; rfl, hl'⟩

end Left

/-! ### Between parentheses -/

/-- Glyphs that may be carved out with parentheses around them: parentheses among them are closed as they are
opened, and there is neither a comment nor a sentinel. -/
structure Closed (gs : List Glyph) : Prop where
  balanced : ∀ ts, ts.map Token.glyph = gs → Formula.Balanced ts
  seen : ∀ g ∈ gs, g.kind ≠ .comment ∧ g.kind ≠ .eof

namespace Closed

variable {gs gs' : List Glyph} {g : Glyph}

theorem nil : Closed [] where
  balanced ts hts := by
    obtain rfl := List.map_eq_nil_iff.mp hts
    intro depth tail
    simp
  seen := by simp

theorem append (h : Closed gs) (h' : Closed gs') : Closed (gs ++ gs') where
  balanced ts hts := by
    obtain ⟨ts, ts', rfl, hts, hts'⟩ := List.map_eq_append_iff.mp hts
    exact (h.balanced ts hts).append (h'.balanced ts' hts')
  seen g hg := (List.mem_append.mp hg).elim (h.seen g) (h'.seen g)

theorem single (h : g.kind ∉ [Kind.leftParen, .rightParen, .comment, .eof]) : Closed [g] where
  balanced ts hts := by
    obtain ⟨t, rfl, rfl⟩ := List.map_eq_singleton_iff.mp hts
    exact .single (fun hk => h (by simp [Token.glyph, hk])) (fun hk => h (by simp [Token.glyph, hk]))
  seen := by simpa using ⟨fun hk => h (by simp [hk]), fun hk => h (by simp [hk])⟩

theorem parens (h : Closed gs) : Closed (.mark .leftParen :: (gs ++ [.mark .rightParen])) where
  balanced ts hts := by
    obtain ⟨o, _, rfl, ho, hbehind⟩ := List.map_eq_cons_iff.mp hts
    obtain ⟨inner, _, rfl, hinner, hclosing⟩ := List.map_eq_append_iff.mp hbehind
    obtain ⟨c, rfl, hc⟩ := List.map_eq_singleton_iff.mp hclosing
    exact .parens (congrArg Glyph.kind ho) (h.balanced inner hinner) (congrArg Glyph.kind hc)
  seen g hg := by
    simp only [List.mem_cons, List.mem_append, List.not_mem_nil, or_false] at hg
    rcases hg with rfl | hg | rfl
    · decide
    · exact h.seen g hg
    · decide

end Closed

namespace Ty

theorem closed_front (f : Flags) : Closed f.front := by
  obtain ⟨pointer, reference, _, _, _, _⟩ := f
  have star : Closed [.mark .star] := .single (by decide)
  have ampersand : Closed [.mark .ampersand] := .single (by decide)
  cases pointer <;> cases reference
  · exact .nil
  · exact ampersand
  · exact star
  · exact ampersand.append star

theorem closed_back (f : Flags) : Closed f.back := by
  unfold Flags.back
  split
  · exact .single (by decide)
  · exact .nil

theorem closed_marked {t : Ty} (h : Closed t.core) : Closed t.glyphs :=
  (closed_front _).append (h.append (closed_back _))

mutual

theorem closed_core (t : Ty) : Closed t.core := by
  cases t with
  | primitive | named => exact .single (by simp)
  | array e =>
      exact (closed_core e).append ((Closed.single (g := .mark .leftBracket) (by decide)).append
        (Closed.single (g := .mark .rightBracket) (by decide)))
  | function ps r =>
      have arrow : Closed (.mark .arrow :: r.glyphs) :=
        (Closed.single (g := .mark .arrow) (by decide)).append (closed_marked (closed_core r))
      simpa [core, glyphs] using (closed_listed ps).parens.append arrow

theorem closed_listed (ts : List Ty) : Closed (listed ts) := by
  match ts with
  | [] => exact .nil
  | [t] => exact closed_marked (closed_core t)
  | t :: u :: ts =>
      have comma : Closed (.mark .comma :: listed (u :: ts)) :=
        (Closed.single (g := .mark .comma) (by decide)).append (closed_listed (u :: ts))
      exact (closed_marked (closed_core t)).append comma

end

end Ty

/-! ### What is read -/

namespace Grammar

variable {s : TypeSetting}

/-- What is behind a type does not go on with it. -/
def EndsType (rest : List Token) : Prop := ∀ t ∈ rest.head?, t.kind ∉ [Kind.leftBracket, .question, .colonColon]

/-- Glyphs are read as a type, whatever is behind them that does not go on with it. -/
def ReadsType (s : TypeSetting) (t : Ty) (gs : List Glyph) : Prop :=
  ∀ (r : Region) (what : String) (ts rest : List Token), r.ahead = ts ++ rest → Region.Uncommented r.ahead →
    ts.map Token.glyph = gs → EndsType rest → ∃ l : Left r, type s r what = .ok (t, l) ∧ l.ahead = rest

/-- Goes on with the brackets behind what has been read of a type. -/
def brackets (s : TypeSetting) {r : Region} (l : Left r) (t : Ty) : Except Diagnostic (Step r Ty) :=
  l.loop r.size_le t fun r₀ _ element => arraySuffix s element r₀

/-- What may be behind a type's core: no path goes on there, and nothing does with what is behind an arrow. -/
structure EndsCore (t : Ty) (rest : List Token) : Prop where
  path : ∀ u ∈ rest.head?, u.kind ≠ .colonColon
  arrow : t.isFunction = true → EndsType rest

/-- Once a base has been read and the brackets behind it one pair after the other, there is the type `t`, and `rest`
is left to go on with. -/
def Arrives (s : TypeSetting) {r : Region} (k : Kept r) (what : String) (t : Ty) (rest : List Token) : Prop :=
  ∃ (base : Ty) (l₀ l : Left r), k.read (baseType s k.toRegion (fun r' _ => type s r') what) = .ok (base, l₀) ∧
    brackets s l₀ base = brackets s l t ∧ l.ahead = rest

theorem Arrives.ofBase {r : Region} {k : Kept r} {what : String} {t : Ty} {rest : List Token}
    (h : ∃ l : Left k.toRegion, baseType s k.toRegion (fun r' _ => type s r') what = .ok (t, l) ∧ l.ahead = rest) :
    Arrives s k what t rest := by
  obtain ⟨l, hbase, hl⟩ := h
  refine ⟨t, k.left l, k.left l, ?_, rfl, hl⟩
  rw [hbase]
  rfl

/-- The core of a type is read, whatever is behind it. -/
def ReadsCore (s : TypeSetting) (t : Ty) : Prop :=
  ∀ (r : Region) (k : Kept r) (what : String) (ts rest : List Token), k.ahead = ts ++ rest →
    Region.Uncommented k.ahead → ts.map Token.glyph = t.core → EndsCore t rest →
    Arrives s k what (t.setFlags .plain).unsized rest

/-! ### Bases -/

section Base

variable {r : Region} {x : Token} {rest : List Token} {what : String}

theorem baseType_primitive {k : Primitive} (hk : Primitive.ofWord? k.name = some k) (hr : Region.Uncommented r.ahead)
    (ha : r.ahead = x :: rest) (hx : x.glyph = ⟨.primitive, k.name⟩) (inner : TypesBelow r) :
    ∃ l : Left r, baseType s r inner what = .ok (.ofPrimitive k, l) ∧ l.ahead = rest := by
  have kind : x.kind = .primitive := congrArg Glyph.kind hx
  have lexeme : x.lexeme = k.name := congrArg Glyph.lexeme hx
  have head : r.head.kind = .primitive := by rw [Region.head, ha, List.headD_cons, kind]
  obtain ⟨l, htake, hl⟩ := Region.takeOr_of_cons (r.mismatch .primitive) hr ha kind
  refine ⟨l, ?_, hl⟩
  unfold baseType primitiveType Region.take
  simp only [head, htake, bind, Except.bind, lexeme, hk]
  rfl

/-- A path of one name. -/
theorem path_single (what : String) (hr : Region.Uncommented r.ahead) (ha : r.ahead = x :: rest)
    (hx : x.kind = .identifier) (hrest : ∀ u ∈ rest.head?, u.kind ≠ .colonColon) :
    ∃ (span : Span) (l : Left r), path r what = .ok (([x.lexeme], span), l) ∧ l.ahead = rest := by
  obtain ⟨l, htake, hl⟩ := Region.takeOr_of_cons (.missing what) hr ha hx
  have alone : l.loop r.size_le [x.lexeme] (fun r₀ _ segments => segment segments r₀) = .ok ([x.lexeme], l) := by
    refine Left.loop_of_none ?_
    unfold segment
    rw [Region.accept?_of_ne (by rwa [hl])]
  refine ⟨l.spanFrom x.span, l, ?_, hl⟩
  unfold path Region.takeNamed
  simp only [htake, bind, Except.bind, alone]
  rfl

/-- A name that stands for itself. -/
theorem baseType_named {n : String} (hn : s.reg.structName? s.scope s.declaring n = some n)
    (hr : Region.Uncommented r.ahead) (ha : r.ahead = x :: rest) (hx : x.glyph = ⟨.identifier, n⟩)
    (hrest : ∀ u ∈ rest.head?, u.kind ≠ .colonColon) (inner : TypesBelow r) :
    ∃ l : Left r, baseType s r inner what = .ok (.named n .plain, l) ∧ l.ahead = rest := by
  have kind : x.kind = .identifier := congrArg Glyph.kind hx
  obtain rfl : x.lexeme = n := congrArg Glyph.lexeme hx
  have head : r.head.kind = .identifier := by rw [Region.head, ha, List.headD_cons, kind]
  obtain ⟨span, l, hpath, hl⟩ := path_single what hr ha kind hrest
  refine ⟨l, ?_, hl⟩
  unfold baseType namedType
  simp only [head, hpath, bind, Except.bind, Name.qualified, join, hn, Option.some_or]
  rfl

/-- A function type is read where its parameters are, between parentheses, and its result behind the arrow. -/
theorem baseType_function {o c a : Token} {params later : List Token} {ps : List Ty} {result : Ty}
    (hr : Region.Uncommented r.ahead) (ha : r.ahead = o :: (params ++ c :: a :: later)) (ho : o.kind = .leftParen)
    (hc : c.kind = .rightParen) (harrow : a.kind = .arrow) (hbalanced : Formula.Balanced params)
    (hparams : ∀ q : Region, q.ahead = params → items q (fun r₀ _ _ => type s r₀ "parameter type") = .ok ps)
    (hresult : ∀ q : Region, q.ahead = later →
      ∃ l : Left q, type s q "return type after '->'" = .ok (result, l) ∧ l.ahead = rest) :
    ∃ l : Left r, baseType s r (fun r' _ => type s r') what = .ok (.function ps result .plain, l) ∧ l.ahead = rest := by
  have head : r.head.kind = .leftParen := by rw [Region.head, ha, List.headD_cons, ho]
  rw [ha] at hr
  have behind : Region.Uncommented (a :: later) := fun t ht => hr t (by simp [List.mem_cons.mp ht])
  have between : Region.Uncommented params := fun t ht => hr t (by simp [ht])
  obtain ⟨inner, l₁, hcarve, hinner, hl₁⟩ := hbalanced.carveParens ha ho hc hr.tail.settle
  rw [between.settle] at hinner
  rw [behind.settle] at hl₁
  obtain ⟨l₂, htake, hl₂⟩ := Region.takeOr_of_cons (.missing "'->' in function type") (hl₁ ▸ behind) hl₁ harrow
  obtain ⟨l₃, hread, hl₃⟩ := hresult (l₁.left l₂).toRegion hl₂
  refine ⟨(l₁.left l₂).left l₃, ?_, hl₃⟩
  have items : inner.items r.size_le (fun r₀ _ _ => type s r₀ "parameter type") = .ok ps := hparams _ hinner
  have arrow : l₁.takeNamed .arrow "'->' in function type" = .ok (a, l₁.left l₂) := by
    rw [Left.takeNamed, Region.takeNamed, htake]
    rfl
  have out : (l₁.left l₂).read (type s (l₁.left l₂).toRegion "return type after '->'") =
      .ok (result, (l₁.left l₂).left l₃) := by
    rw [hread]
    rfl
  unfold baseType functionType
  simp only [head, hcarve, bind, Except.bind, items, arrow, out]
  rfl

theorem items_empty {α : Type} {item : (r' : Region) → Except Diagnostic (Step r' α)} (ha : r.ahead = []) :
    items r (fun r₀ _ _ => item r₀) = .ok [] := by
  have done : r.hasNext = false := by simp [Region.hasNext, ha]
  unfold items
  rw [loop_eq]
  simp only [done]
  rfl

end Base

/-! ### Brackets -/

section Brackets

variable {r : Region} {l : Left r} {t : Ty} {rest : List Token}

theorem brackets_end (h : ∀ u ∈ l.ahead.head?, u.kind ≠ .leftBracket) : brackets s l t = .ok (t, l) := by
  refine Left.loop_of_none ?_
  unfold arraySuffix
  rw [Region.accept?_of_ne h]

theorem brackets_pair {o c : Token} (hl : Region.Uncommented l.ahead) (ha : l.ahead = o :: c :: rest)
    (ho : o.kind = .leftBracket) (hc : c.kind = .rightBracket) :
    ∃ l' : Left r, brackets s l t = brackets s l' (.array t 0 .plain) ∧ l'.ahead = rest := by
  obtain ⟨l₁, hopen, hl₁⟩ := Region.accept?_of_cons hl ha ho
  obtain ⟨l₂, hclose, hl₂⟩ := Left.accept?_of_cons (hl₁ ▸ (ha ▸ hl).tail) hl₁ hc
  refine ⟨l.left l₂, Left.loop_of_some ?_, hl₂⟩
  unfold arraySuffix
  simp only [hopen, hclose]

end Brackets

/-! ### Marks -/

theorem typeMark_eq {r : Region} {f : Flags} {front rest : List Token} (hf : f.Marks)
    (hr : Region.Uncommented r.ahead) (ha : r.ahead = front ++ rest) (hfront : front.map Token.glyph = f.front)
    (hrest : ∀ u ∈ rest.head?, u.kind ≠ .star ∧ u.kind ≠ .ampersand) :
    ∃ k : Kept r, typeMark r = ({ pointer := f.pointer, reference := f.reference }, k) ∧ k.ahead = rest := by
  have refuses {k : Kind} (h : ∀ u ∈ r.ahead.head?, u.kind ≠ k) : r.accept? k = none := Region.accept?_of_ne h
  obtain ⟨pointer, reference, _, _, _, _⟩ := f
  unfold typeMark
  cases pointer <;> cases reference
  · obtain rfl := List.map_eq_nil_iff.mp hfront
    rw [List.nil_append] at ha
    refine ⟨.whole r, ?_, ha⟩
    rw [refuses (ha ▸ fun u hu => (hrest u hu).1), refuses (ha ▸ fun u hu => (hrest u hu).2)]
    rfl
  · obtain ⟨x, rfl, hx⟩ := List.map_eq_singleton_iff.mp hfront
    have kind : x.kind = .ampersand := congrArg Glyph.kind hx
    obtain ⟨l, haccept, hl⟩ := Region.accept?_of_cons hr ha kind
    refine ⟨l.kept, ?_, hl⟩
    rw [refuses (ha ▸ fun u hu => Option.some.inj hu ▸ kind ▸ by decide), haccept]
  · obtain ⟨x, rfl, hx⟩ := List.map_eq_singleton_iff.mp hfront
    have kind : x.kind = .star := congrArg Glyph.kind hx
    obtain ⟨l, haccept, hl⟩ := Region.accept?_of_cons hr ha kind
    refine ⟨l.kept, ?_, hl⟩
    rw [haccept]
  · exact absurd ⟨rfl, rfl⟩ hf.single

/-- No mark stands behind the mark of a type. -/
theorem core_begins (t : Ty) : ∃ g gs, t.core = g :: gs ∧ g.kind ≠ .star ∧ g.kind ≠ .ampersand := by
  cases t with
  | primitive | named => exact ⟨_, _, by rw [Ty.core], by simp⟩
  | array e =>
      obtain ⟨g, gs, he, hg⟩ := core_begins e
      exact ⟨g, _, by rw [Ty.core, he]; rfl, hg⟩
  | function => exact ⟨_, _, by rw [Ty.core], by decide⟩

theorem glyphs_ne_nil (t : Ty) : t.glyphs ≠ [] := by
  obtain ⟨g, gs, hcore, _⟩ := core_begins t
  simp [Ty.glyphs, hcore]

theorem unsized_setFlags (t : Ty) (f : Flags) : (t.setFlags f).unsized = t.unsized.setFlags f := by
  cases t <;> simp only [Ty.setFlags, Ty.unsized]

/-- The marks that are read are those of the type. -/
theorem withFlags_unsized {t : Ty} (h : t.flags.Marks) :
    (t.setFlags .plain).unsized.withFlags
      { pointer := t.flags.pointer, reference := t.flags.reference, optional := t.flags.optional } = t.unsized := by
  have marks : Flags.plain.union
      { pointer := t.flags.pointer, reference := t.flags.reference, optional := t.flags.optional } = t.flags := by
    obtain ⟨_, hm, hg, hv⟩ := h
    generalize t.flags = f at hm hg hv
    cases f
    simp_all [Flags.union, Flags.plain]
  rw [Ty.withFlags, unsized_setFlags, Ty.flags_setFlags, marks]
  have again : (t.unsized.setFlags .plain).setFlags t.flags = t.unsized.setFlags t.flags := by
    cases t.unsized <;> rfl
  rw [again, Ty.setFlags_of_flags (Ty.flags_unsized t)]

/-- The mark behind a type is read if it has one; what is behind that does not go on with the type. -/
theorem optional_eq {r : Region} {l : Left r} {f : Flags} {back rest : List Token} (hl : Region.Uncommented l.ahead)
    (ha : l.ahead = back ++ rest) (hback : back.map Token.glyph = f.back) (hrest : EndsType rest) :
    ∃ (question : Option Token) (l' : Left r), l.optional .question = (question, l') ∧
      question.isSome = f.optional ∧ l'.ahead = rest := by
  unfold Flags.back at hback
  unfold Left.optional
  split at hback
  · rename_i hf
    obtain ⟨x, rfl, hx⟩ := List.map_eq_singleton_iff.mp hback
    have kind : x.kind = .question := congrArg Glyph.kind hx
    obtain ⟨l', haccept, hl'⟩ := Left.accept?_of_cons hl ha kind
    exact ⟨some x, l', by rw [haccept], hf.symm, hl'⟩
  · rename_i hf
    obtain rfl := List.map_eq_nil_iff.mp hback
    rw [List.nil_append] at ha
    have refuses : l.accept? .question = none := by
      refine Left.accept?_of_ne fun u hu hk => ?_
      rw [ha] at hu
      exact hrest u hu (by simp [hk])
    exact ⟨none, l, by rw [refuses], by simpa using hf, ha⟩

/-- What may be behind a type may be behind its core, with the mark that is between them. -/
theorem EndsType.endsCore {t : Ty} {back rest : List Token} (h : EndsType rest) (hb : t.Bare)
    (hback : back.map Token.glyph = t.flags.back) :
    EndsCore t (back ++ rest) ∧ ∀ u ∈ (back ++ rest).head?, u.kind ≠ .leftBracket := by
  unfold Flags.back at hback
  split at hback
  · rename_i hf
    obtain ⟨x, rfl, hx⟩ := List.map_eq_singleton_iff.mp hback
    have kind : x.kind = .question := congrArg Glyph.kind hx
    refine ⟨⟨fun u hu => Option.some.inj hu ▸ kind ▸ by decide, fun harrow => ?_⟩,
      fun u hu => Option.some.inj hu ▸ kind ▸ by decide⟩
    cases t <;> cases harrow
    obtain rfl := hb.1
    cases hf
  · obtain rfl := List.map_eq_nil_iff.mp hback
    refine ⟨⟨fun u hu hk => h u hu (by simp [hk]), fun _ => h⟩, fun u hu hk => h u hu (by simp [hk])⟩

/-- With its marks around it, a type is read if its core is. -/
theorem ReadsCore.marked {t : Ty} (h : ReadsCore s t) (hm : t.flags.Marks) (hb : t.Bare) :
    ReadsType s t.unsized t.glyphs := by
  intro r what ts rest ha hr hts hends
  obtain ⟨front, _, rfl, hfront, hbehind⟩ := List.map_eq_append_iff.mp hts
  obtain ⟨core, back, rfl, hcore, hback⟩ := List.map_eq_append_iff.mp hbehind
  rw [List.append_assoc, List.append_assoc] at ha
  have unmarked : ∀ u ∈ (core ++ (back ++ rest)).head?, u.kind ≠ .star ∧ u.kind ≠ .ampersand := by
    obtain ⟨g, gs, hbegins, hg⟩ := core_begins t
    obtain ⟨x, core, rfl, rfl, _⟩ := List.map_eq_cons_iff.mp (hcore.trans hbegins)
    exact fun u hu => Option.some.inj hu ▸ hg
  obtain ⟨k, hmark, hk⟩ := typeMark_eq hm hr ha hfront unmarked
  have seen : Region.Uncommented k.ahead := fun u hu => hr u (ha ▸ List.mem_append_right _ (hk ▸ hu))
  obtain ⟨hcoreEnds, hbracket⟩ := hends.endsCore hb hback
  obtain ⟨base, l₀, l, hbase, hbrackets, hl⟩ := h r k what core (back ++ rest) hk seen hcore hcoreEnds
  -- the brackets that the core ends with are all there are
  have suffixes : l₀.loop r.size_le base (fun r₀ _ element => arraySuffix s element r₀) =
      .ok ((t.setFlags .plain).unsized, l) := hbrackets.trans (brackets_end (hl ▸ hbracket))
  have behind : Region.Uncommented l.ahead := fun u hu => seen u (hk ▸ List.mem_append_right _ (hl ▸ hu))
  obtain ⟨question, l', hoptional, hsome, hl'⟩ := optional_eq behind hl hback hends
  refine ⟨l', ?_, hl'⟩
  have rule : type s r what = typeFrom s r (fun r' _ => type s r') what := productions_solves.type s r what
  rw [rule]
  unfold typeFrom
  rw [hmark]
  simp only [hbase, bind, Except.bind, suffixes, hoptional, hsome, withFlags_unsized hm]
  rfl

mutual

theorem reads_core {N : String → Prop} (hN : ∀ n, N n → s.reg.structName? s.scope s.declaring n = some n) (t : Ty)
    (hs : t.Spelt N) (hb : t.Bare) : ReadsCore s t := by
  intro r k what ts rest ha hk hts hends
  cases t with
  | primitive p w f =>
      obtain ⟨x, rfl, hx⟩ := List.map_eq_singleton_iff.mp hts
      obtain ⟨hnil, hunknown, rfl⟩ := hs
      rw [Ty.setFlags, Ty.unsized]
      exact .ofBase (baseType_primitive (Ty.ofWord?_name hnil hunknown).2 hk ha hx _)
  | named n f =>
      obtain ⟨x, rfl, hx⟩ := List.map_eq_singleton_iff.mp hts
      rw [Ty.setFlags, Ty.unsized]
      exact .ofBase (baseType_named (hN n hs) hk ha hx hends.path _)
  | array e len f =>
      rw [Ty.core] at hts
      obtain ⟨element, _, rfl, helement, hbehind⟩ := List.map_eq_append_iff.mp hts
      obtain ⟨o, _, rfl, ho, hclosing⟩ := List.map_eq_cons_iff.mp hbehind
      obtain ⟨c, rfl, hc⟩ := List.map_eq_singleton_iff.mp hclosing
      have opening : o.kind = .leftBracket := congrArg Glyph.kind ho
      rw [List.append_assoc] at ha
      have ends : EndsCore e ([o, c] ++ rest) := by
        refine ⟨fun u hu => Option.some.inj hu ▸ opening ▸ by decide, fun harrow => ?_⟩
        rw [hb.1] at harrow
        cases harrow
      -- the element is no function, so the brackets behind it are not taken for those of a result
      obtain ⟨b, l₀, l, hbase, hbrackets, hl⟩ := reads_core hN e hs.2 hb.2 r k what element _ ha hk helement ends
      have seen : Region.Uncommented l.ahead := fun u hu => hk u (ha ▸ List.mem_append_right _ (hl ▸ hu))
      obtain ⟨l', hpair, hl'⟩ := brackets_pair seen hl opening (congrArg Glyph.kind hc)
      refine ⟨b, l₀, l', hbase, ?_, hl'⟩
      rw [hbrackets, hpair, Ty.setFlags_of_flags hs.1, Ty.setFlags, Ty.unsized]
  | function ps result f =>
      rw [Ty.core] at hts
      obtain ⟨o, _, rfl, ho, hbehind⟩ := List.map_eq_cons_iff.mp hts
      obtain ⟨params, _, rfl, hparams, hclosing⟩ := List.map_eq_append_iff.mp hbehind
      obtain ⟨c, _, rfl, hc, harrow⟩ := List.map_eq_cons_iff.mp hclosing
      obtain ⟨a, later, rfl, ha', hlater⟩ := List.map_eq_cons_iff.mp harrow
      have ahead : k.ahead = o :: (params ++ c :: a :: (later ++ rest)) := by simpa using ha
      rw [ahead] at hk
      rw [Ty.setFlags, Ty.unsized]
      refine .ofBase (baseType_function (ahead ▸ hk) ahead (congrArg Glyph.kind ho) (congrArg Glyph.kind hc)
        (congrArg Glyph.kind ha') ((Ty.closed_listed ps).balanced params hparams) (fun q hq => ?_) fun q hq => ?_)
      · have seen : Region.Uncommented q.ahead := fun u hu => hk u (by simp [hq ▸ hu])
        exact items_listed hN ps hs.1 hb.2.1 q "parameter type" seen (hq ▸ hparams)
      · have seen : Region.Uncommented q.ahead := fun u hu => hk u (by simp [List.mem_append.mp (hq ▸ hu)])
        have reads : ReadsCore s result := reads_core hN result hs.2.2 hb.2.2
        exact reads.marked hs.2.1 hb.2.2 q _ later rest hq seen hlater (hends.arrow rfl)

theorem items_listed {N : String → Prop} (hN : ∀ n, N n → s.reg.structName? s.scope s.declaring n = some n)
    (ps : List Ty) (hs : Ty.WrittenAll N ps) (hb : Ty.BareAll ps) (q : Region) (what : String)
    (hq : Region.Uncommented q.ahead) (hps : q.ahead.map Token.glyph = Ty.listed ps) :
    items q (fun r₀ _ _ => type s r₀ what) = .ok (Ty.allUnsized ps) := by
  have hasNext (h : q.ahead ≠ []) : q.hasNext = true := by simpa [Region.hasNext] using h
  match ps with
  | [] => exact items_empty (List.map_eq_nil_iff.mp hps)
  | [t] =>
      have reads : ReadsCore s t := reads_core hN t hs.1.2 hb.1
      obtain ⟨l, hread, hl⟩ := reads.marked hs.1.1 hb.1 q what q.ahead [] (List.append_nil _).symm hq hps
        (by simp [EndsType])
      have some : q.ahead ≠ [] := fun none => glyphs_ne_nil t (by rw [none] at hps; exact hps.symm)
      have comma : l.accept? .comma = none := Left.accept?_of_ne (by simp [hl])
      have done : l.hasNext = false := by simp [Region.hasNext, hl]
      rw [items_eq (fun _ _ => rfl) (fun r => type s r what) q (hasNext some)]
      simp only [hread, bind, Except.bind, comma, done]
      rfl
  | t :: u :: ts =>
      rw [Ty.listed] at hps
      obtain ⟨first, _, hahead, hfirst, hbehind⟩ := List.map_eq_append_iff.mp hps
      obtain ⟨x, later, rfl, hx, hlater⟩ := List.map_eq_cons_iff.mp hbehind
      have kind : x.kind = .comma := congrArg Glyph.kind hx
      have reads : ReadsCore s t := reads_core hN t hs.1.2 hb.1
      obtain ⟨l, hread, hl⟩ := reads.marked hs.1.1 hb.1 q what first (x :: later) hahead hq hfirst
        fun y hy => Option.some.inj hy ▸ kind ▸ by decide
      have some : q.ahead ≠ [] := by simp [hahead]
      have seen : Region.Uncommented l.ahead := fun y hy => hq y (hahead ▸ List.mem_append_right _ (hl ▸ hy))
      obtain ⟨l', comma, hl'⟩ := Left.accept?_of_cons seen hl kind
      have behind : Region.Uncommented l'.ahead := hl' ▸ (hl ▸ seen).tail
      have rest := items_listed hN (u :: ts) hs.2 hb.2 l'.toRegion what behind (hl' ▸ hlater)
      rw [items_eq (fun _ _ => rfl) (fun r => type s r what) q (hasNext some)]
      simp only [hread, bind, Except.bind, comma, rest]
      rfl

end


end Grammar

/-! ### Names -/

/-- If the token is an identifier, its lexeme is cut out of a text as one. -/
def Token.Identifies (t : Token) : Prop := t.kind = .identifier → IsIdentifier t.lexeme

theorem Source.tokens_identifies {source : Source} {ts : List Token} (h : source.tokens = .ok ts) :
    ∀ t ∈ ts, t.Identifies := by
  refine Token.Scan.tokens_forall h (fun _ => nofun) fun c cs piece span hp hk => ?_
  obtain ⟨hc, rfl⟩ := Token.Scan.token_eq_word hp (congrArg Kind.isNominal hk)
  refine ⟨Token.Scan.word_names hc hk, ?_⟩
  intro d hd
  rw [String.toList_ofList] at hd
  exact Option.some.inj hd ▸ hc

theorem Named.isIdentifier {n : String} (h : Named Token.Identifies n) : IsIdentifier n := by
  have word : Named Token.Names n ∧ ∀ c ∈ n.toList.head?, Token.Scan.isWordStart c = true := by
    induction h with
    | word h =>
        obtain ⟨t, ht, hk, rfl⟩ := h
        exact ⟨.word ⟨t, fun hk => (ht hk).toIsWord, hk, rfl⟩, (ht hk).start⟩
    | within _ _ iha ihb =>
        refine ⟨.within iha.1 ihb.1, ?_⟩
        rw [String.append_assoc, String.toList_append, List.head?_append_of_ne_nil _ iha.1.nonempty]
        exact iha.2
  exact ⟨isWord_iff_named.mpr word.1, word.2⟩

namespace Registry

/-- Registries that files have been read into have no names but those that are made of identifiers. -/
theorem FromFiles.identified {reg : Registry} (h : reg.FromFiles) : reg.Tidy Token.Identifies := by
  induction h with
  | empty => exact .empty
  | @read reg _ source _ before after ih =>
      let rd : Reading :=
        { token := Token.Identifies, start := reg, home := some global, wellFormed := before.invariant.1, tidy := ih }
      exact (read_settled rd rfl (fun _ => Source.tokens_identifies) after).1.tidy before.invariant.1 ih

variable {reg : Registry} {n : String}

instance : DecidablePred reg.HasStruct := fun n =>
  decidable_of_iff (∃ s ∈ (reg.definitions global).filterMap (·.asStruct?), s.symbol.internal = n) (by
    simp only [List.mem_filterMap, HasStruct]
    constructor
    · rintro ⟨s, ⟨d, hd, hs⟩, hn⟩
      cases d <;> cases hs
      exact ⟨s, hd, hn⟩
    · rintro ⟨s, hs, hn⟩
      exact ⟨s, ⟨_, hs, rfl⟩, hn⟩)

/-- From the global scope, a struct is found under the name that it is known by. -/
theorem WellFormed.structName?_global (h : reg.WellFormed) (hn : reg.HasStruct n) :
    reg.structName? global none n = some n := by
  obtain ⟨s, hs, rfl⟩ := hn
  have found : (reg.struct? global s.symbol.internal).isSome = true := by
    rw [struct?, List.find?_isSome]
    exact ⟨s, (mem_structs_iff h h.knows_global).mpr hs, beq_self_eq_true _⟩
  have candidate : Name.qualified [s.symbol.internal] = s.symbol.internal := rfl
  simp [structName?, h.modulePath_global, candidate, found]

end Registry

/-! ### Reading what is printed -/

theorem Ty.tokens_text {t : Ty} (h : t.Written IsIdentifier) (hb : t.Bare) (id : Nat) (path : String) :
    ∃ ts, Source.tokens ⟨id, path, t.text⟩ = .ok ts ∧
      (Region.ofTokens ⟨id, path, t.text⟩ ts).ahead.map Token.glyph = t.glyphs ∧
      Region.Uncommented (Region.ofTokens ⟨id, path, t.text⟩ ts).ahead := by
  have lexes : Lexes t.glyphs t.text.toList [] :=
    Ty.lexes_text h.1 h.2 hb (Ty.lexes_core t h.2 hb) [] (by simp [Token.Scan.StopsWord])
  obtain ⟨offset, ts, hts, htokens⟩ := lexes ⟨id, path, t.text⟩ 0
  rw [List.append_nil] at htokens
  have seen : ∀ u ∈ ts, u.kind ≠ .comment ∧ u.kind ≠ .eof := fun u hu =>
    (Ty.closed_marked (Ty.closed_core t)).seen u.glyph (hts ▸ List.mem_map_of_mem hu)
  have uncommented : Region.Uncommented ts := fun u hu => by simpa [Token.isComment] using (seen u hu).1
  refine ⟨_, htokens, ?_⟩
  have ahead : (Region.ofTokens ⟨id, path, t.text⟩ (ts ++ [Token.sentinel (.ofLength offset 0 id)])).ahead = ts := by
    rw [Region.ofTokens]
    dsimp only
    rw [List.takeWhile_append_of_pos (fun u hu => by simpa using (seen u hu).2)]
    simp [Token.sentinel, uncommented.settle]
  rw [ahead]
  exact ⟨hts, uncommented⟩

namespace Grammar

/-- A type that was read is printed, its text is cut into tokens, and these are read from the global scope: this
takes all of them, and gives the type back without the lengths of its arrays. The modules and the types of the
registry have names that are made of identifiers, as after any files. -/
theorem type_reread {source : Source} {ts : List Token} {s : TypeSetting} {r : Region} {what : String} {t : Ty}
    {l : Left r} (hs : source.tokens = .ok ts) (hr : ∀ u ∈ r.ahead, u ∈ ts) (hreg : s.reg.WellFormed)
    (htidy : s.reg.Tidy Token.Identifies) (h : type s r what = .ok (t, l)) (hnames : t.Mentions s.reg.HasStruct)
    (hbare : t.Bare) (id : Nat) (path what' : String) :
    ∃ ts', Source.tokens ⟨id, path, t.text⟩ = .ok ts' ∧
      ∃ l', type ⟨s.reg, ⟨id, path, t.text⟩, Registry.global, none⟩ (.ofTokens ⟨id, path, t.text⟩ ts') what' =
        .ok (t.unsized, l') ∧ l'.hasNext = false := by
  have known : ∀ u ∈ r.ahead, u.Identifies := fun u hu => Source.tokens_identifies hs u (hr u hu)
  let V : View := ⟨Token.Identifies, r.ahead, known, fun _ => True, fun _ _ => trivial⟩
  have whole : r.ahead.take r.size = r.ahead := List.take_length
  have faces : r.Faces V r.size := ⟨Nat.le_refl _, whole.symm ▸ List.suffix_rfl, trivial⟩
  have written : t.Written (Named Token.Identifies) := (type_yields htidy faces _ h).2
  obtain ⟨ts', htokens, hglyphs, hseen⟩ :=
    Ty.tokens_text (written.imp fun _ hn => Named.isIdentifier hn) hbare id path
  have reads : ReadsCore ⟨s.reg, ⟨id, path, t.text⟩, Registry.global, none⟩ t :=
    reads_core (fun _ => hreg.structName?_global) t (written.2.of_mentions hnames) hbare
  obtain ⟨l', hread, hl'⟩ := reads.marked written.1 hbare (.ofTokens ⟨id, path, t.text⟩ ts') what' _ []
    (List.append_nil _).symm hseen hglyphs (by simp [EndsType])
  exact ⟨ts', htokens, l', hread, by simp [Region.hasNext, hl']⟩

/-- The struct of a module, written by its path and read back by the name that it is known by. -/
theorem type_reread_path :
    let file : Source := ⟨0, "unit.st", "module geo \x7b struct Point \x7b x: i32; \x7d \x7d"⟩
    let source : Source := ⟨1, "type.st", "(geo::Point[4], (& uint8) -> void) -> *geo::Point[][2]?"⟩
    ∃ p reg ts t l, Registry.empty.read file = (.ok p, reg) ∧ source.tokens = .ok ts ∧
      type ⟨reg, source, Registry.global, none⟩ (.ofTokens source ts) "type" = .ok (t, l) ∧
      t.text = "(geo__Point[], (&u8) -> void) -> *geo__Point[][]?" ∧ t.Mentions reg.HasStruct ∧ t.Bare ∧
      ∃ ts', Source.tokens ⟨2, "text.st", t.text⟩ = .ok ts' ∧
        ∃ l', type ⟨reg, ⟨2, "text.st", t.text⟩, Registry.global, none⟩ (.ofTokens ⟨2, "text.st", t.text⟩ ts') "type" =
          .ok (t.unsized, l') ∧ l'.hasNext = false := by
  intro file source
  obtain ⟨p, reg, hfile, hout⟩ := Registry.exists_of_read .empty file (by rfl)
    (fun _ reg => source.tokens.toOption.bind fun ts =>
      (type ⟨reg, source, Registry.global, none⟩ (.ofTokens source ts) "type").toOption.map
        fun out : Step (.ofTokens source ts) Ty =>
          (out.1.text, decide (out.1.Mentions reg.HasStruct ∧ out.1.Bare)))
    (x := some ("(geo__Point[], (&u8) -> void) -> *geo__Point[][]?", true)) (by decide +kernel)
  obtain ⟨ts, hts, hread⟩ := Option.bind_eq_some_iff.mp hout
  obtain ⟨⟨t, l⟩, ht, hfacts⟩ := Option.map_eq_some_iff.mp hread
  obtain ⟨htext, hrest⟩ := Prod.mk.inj hfacts
  obtain ⟨hnames, hbare⟩ := of_decide_eq_true hrest
  have hts := toOption_eq_some.mp hts
  have ht := toOption_eq_some.mp ht
  have files := Registry.FromFiles.read .empty hfile
  have inside : ∀ u ∈ (Region.ofTokens source ts).ahead, u ∈ ts := fun u hu =>
    (List.takeWhile_sublist _).subset ((Region.settle_suffix _).subset hu)
  exact ⟨p, reg, ts, t, l, hfile, hts, ht, htext, hnames, hbare,
    type_reread hts inside files.invariant.1 files.identified ht hnames hbare 2 "text.st" "type"⟩

/-- In a module whose name is no identifier, a struct has a name that is cut into a number and a word. Its type is
read where the module is, and is not read back. -/
theorem type_not_reread :
    let reg₁ := (Registry.empty.perform (.openModule 0 "1x")).2
    let reg := (reg₁.perform (.defineStruct 1 ⟨⟨"P", "1x__P", .zero⟩, .fields [⟨"a", .ofPrimitive .i32⟩]⟩)).2
    let source : Source := ⟨0, "type.st", "P"⟩
    reg.WellFormed ∧ ∃ ts t l, source.tokens = .ok ts ∧
      type ⟨reg, source, 1, none⟩ (.ofTokens source ts) "type" = .ok (t, l) ∧
      t.text = "1x__P" ∧ t.Mentions reg.HasStruct ∧ t.Bare ∧
      ∃ ts' d, Source.tokens ⟨1, "text.st", t.text⟩ = .ok ts' ∧
        type ⟨reg, ⟨1, "text.st", t.text⟩, Registry.global, none⟩ (.ofTokens ⟨1, "text.st", t.text⟩ ts') "type" =
          .error d := by
  intro reg₁ reg source
  have h₁ : Registry.Reachable reg₁ := .perform .empty (by rintro _ ⟨⟩; decide)
  have h : Registry.Reachable reg := .perform h₁ (by rintro _ ⟨⟩; decide)
  refine ⟨h.wellFormed, ?_⟩
  have out : (source.tokens.toOption.bind fun ts =>
      (type ⟨reg, source, 1, none⟩ (.ofTokens source ts) "type").toOption.map
        fun out : Step (.ofTokens source ts) Ty =>
          (out.1.text, decide (out.1.Mentions reg.HasStruct ∧ out.1.Bare))) = some ("1x__P", true) := by
    decide +kernel
  have back : ((Source.tokens ⟨1, "text.st", "1x__P"⟩).toOption.map fun ts =>
      (type ⟨reg, ⟨1, "text.st", "1x__P"⟩, Registry.global, none⟩
        (.ofTokens ⟨1, "text.st", "1x__P"⟩ ts) "type").toOption.isNone) = some true := by
    decide +kernel
  obtain ⟨ts, hts, hread⟩ := Option.bind_eq_some_iff.mp out
  obtain ⟨⟨t, l⟩, ht, hfacts⟩ := Option.map_eq_some_iff.mp hread
  obtain ⟨htext, hrest⟩ := Prod.mk.inj hfacts
  obtain ⟨hnames, hbare⟩ := of_decide_eq_true hrest
  obtain ⟨ts', hts', hfails⟩ := Option.map_eq_some_iff.mp back
  replace htext : t.text = "1x__P" := htext
  refine ⟨ts, t, l, toOption_eq_some.mp hts, toOption_eq_some.mp ht, htext, hnames, hbare, ts', ?_⟩
  rw [htext]
  generalize type ⟨reg, ⟨1, "text.st", "1x__P"⟩, Registry.global, none⟩
    (.ofTokens ⟨1, "text.st", "1x__P"⟩ ts') "type" = outcome at hfails ⊢
  cases outcome with
  | error d => exact ⟨d, toOption_eq_some.mp hts', rfl⟩
  | ok _ => cases hfails

end Grammar
end OnePass
