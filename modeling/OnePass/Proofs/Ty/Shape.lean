import OnePass.Token.Scan

/-!
The text of a type by its parts. Marks come first; then there is a name, or parameters with a result, or
something in parentheses; brackets and a question mark may follow a name or parentheses. Whatever follows a
result belongs to it, so this says less than a type does: it is all that can be seen of one in its text.
`Shape.chars_append_inj` shows that a text has no second reading.
-/

namespace OnePass

inductive Shape where
  | word (marks name suffixes : List Char)
  | arrow (marks : List Char) (params : List Shape) (result : Shape)
  | group (marks : List Char) (inner : Shape) (suffixes : List Char)

/-- Stands in front of a type. -/
def isMark (c : Char) : Bool := c == '.' || c == '&' || c == '*'

/-- Stands behind a type. -/
def isSuffix (c : Char) : Bool := c == '[' || c == ']' || c == '?'

namespace Shape

mutual

def chars : Shape → List Char
  | word marks name suffixes => marks ++ (name ++ suffixes)
  | arrow marks params result =>
    marks ++ '(' :: (paramChars [' '] params ++ [' ', '-', '>', ' '] ++ result.chars)
  | group marks inner suffixes => marks ++ '(' :: (inner.chars ++ ')' :: suffixes)

/-- Parameters up to the closing parenthesis, with a gap after each comma. -/
def paramChars (gap : List Char) : List Shape → List Char
  | [] => [')']
  | p :: ps => p.chars ++ moreChars gap ps

/-- Parameters behind the first. -/
def moreChars (gap : List Char) : List Shape → List Char
  | [] => [')']
  | p :: ps => ',' :: (gap ++ (p.chars ++ moreChars gap ps))

end

mutual

/-- Marks, names and suffixes consist of what they may consist of. -/
def Proper : Shape → Prop
  | word marks name suffixes =>
    (∀ c ∈ marks, isMark c = true) ∧ (name ≠ [] ∧ ∀ c ∈ name, Token.Scan.isWordChar c = true) ∧
      ∀ c ∈ suffixes, isSuffix c = true
  | arrow marks params result =>
    (∀ c ∈ marks, isMark c = true) ∧ ProperAll params ∧ result.Proper
  | group marks inner suffixes =>
    (∀ c ∈ marks, isMark c = true) ∧ inner.Proper ∧ ∀ c ∈ suffixes, isSuffix c = true

def ProperAll : List Shape → Prop
  | [] => True
  | p :: ps => p.Proper ∧ ProperAll ps

end

/-! ### One reading -/

/-- What may follow a type: another parameter, a closing parenthesis, or nothing. -/
def Stops (x : List Char) : Prop := ∀ c ∈ x.head?, c = ',' ∨ c = ')'

/-- Where a run of characters of one sort ends, if something else follows. -/
theorem run_append_inj {p : Char → Bool} {a b x y : List Char} (ha : ∀ c ∈ a, p c = true)
    (hb : ∀ c ∈ b, p c = true) (hx : ∀ c ∈ x.head?, p c = false) (hy : ∀ c ∈ y.head?, p c = false)
    (h : a ++ x = b ++ y) : a = b ∧ x = y := by
  have ends {z : List Char} (hz : ∀ c ∈ z.head?, p c = false) : z.takeWhile p = [] := by
    cases z with
    | nil => rfl
    | cons c z => simp [hz c rfl]
  have same := congrArg (List.takeWhile p) h
  rw [List.takeWhile_append_of_pos ha, List.takeWhile_append_of_pos hb, ends hx, ends hy,
    List.append_nil, List.append_nil] at same
  exact ⟨same, List.append_cancel_left (same ▸ h)⟩

theorem isSuffix_of_stops {x : List Char} (h : Stops x) : ∀ c ∈ x.head?, isSuffix c = false := by
  intro c hc
  rcases h c hc with rfl | rfl <;> rfl

theorem stops_moreChars (gap : List Char) (ps : List Shape) (x : List Char) :
    Stops (moreChars gap ps ++ x) := by
  cases ps <;> simp [moreChars, Stops]

/-- The marks in front. -/
def marks : Shape → List Char
  | word marks .. | arrow marks .. | group marks .. => marks

/-- What follows the marks in front. -/
def body : Shape → List Char
  | word _ name suffixes => name ++ suffixes
  | arrow _ params result => '(' :: (paramChars [' '] params ++ [' ', '-', '>', ' '] ++ result.chars)
  | group _ inner suffixes => '(' :: (inner.chars ++ ')' :: suffixes)

theorem chars_eq (s : Shape) : s.chars = s.marks ++ s.body := by
  cases s <;> simp only [chars, marks, body]

theorem isMark_eq_false {c : Char} (h : Token.Scan.isWordChar c = true) : isMark c = false := by
  refine Bool.eq_false_iff.mpr fun hm => ?_
  simp only [isMark, Bool.or_eq_true, beq_iff_eq] at hm
  rcases hm with (rfl | rfl) | rfl <;> exact absurd h (by decide)

theorem isWordChar_eq_false {c : Char} (h : isSuffix c = true) : Token.Scan.isWordChar c = false := by
  simp only [isSuffix, Bool.or_eq_true, beq_iff_eq] at h
  rcases h with (rfl | rfl) | rfl <;> decide

theorem Proper.marks {s : Shape} (h : s.Proper) : ∀ c ∈ s.marks, isMark c = true := by
  cases s <;> exact h.1

theorem Proper.body {s : Shape} (h : s.Proper) :
    ∃ c rest, s.body = c :: rest ∧ (c = '(' ∨ Token.Scan.isWordChar c = true) := by
  cases s with
  | word marks name suffixes =>
      obtain ⟨_, ⟨hne, hname⟩, _⟩ := h
      obtain ⟨c, name, rfl⟩ := List.exists_cons_of_ne_nil hne
      exact ⟨c, name ++ suffixes, rfl, .inr (hname c List.mem_cons_self)⟩
  | arrow | group => exact ⟨_, _, rfl, .inl rfl⟩

theorem Proper.body_unmarked {s : Shape} (h : s.Proper) (x : List Char) :
    ∀ c ∈ (s.body ++ x).head?, isMark c = false := by
  obtain ⟨c, rest, he, hc⟩ := h.body
  rw [he]
  rintro _ ⟨⟩
  rcases hc with rfl | hc
  · rfl
  · exact isMark_eq_false hc

/-- No type begins with what closes the parameters. -/
theorem Proper.ne_closing {s : Shape} (h : s.Proper) {x y : List Char} : s.chars ++ x ≠ ')' :: y := by
  intro he
  rw [chars_eq, List.append_assoc] at he
  obtain ⟨c, rest, hbody, hc⟩ := h.body
  cases hm : s.marks with
  | nil =>
      rw [hm, hbody] at he
      obtain rfl := (List.cons.inj he).1
      rcases hc with hc | hc <;> exact absurd hc (by decide)
  | cons m ms =>
      rw [hm] at he
      obtain rfl := (List.cons.inj he).1
      exact absurd (h.marks _ (hm ▸ List.mem_cons_self)) (by decide)

theorem body_of_chars {s s' : Shape} (h : s.Proper) (h' : s'.Proper) {x x' : List Char}
    (he : s.chars ++ x = s'.chars ++ x') : s.marks = s'.marks ∧ s.body ++ x = s'.body ++ x' := by
  rw [chars_eq, chars_eq, List.append_assoc, List.append_assoc] at he
  exact run_append_inj h.marks h'.marks (h.body_unmarked x) (h'.body_unmarked x') he

theorem Proper.word_ne_opening {marks name suffixes : List Char} (h : (word marks name suffixes).Proper)
    {x y : List Char} : (word marks name suffixes).body ++ x ≠ '(' :: y := by
  intro he
  obtain ⟨_, ⟨hne, hname⟩, _⟩ := h
  obtain ⟨c, name, rfl⟩ := List.exists_cons_of_ne_nil hne
  obtain rfl := (List.cons.inj he).1
  exact absurd (hname _ List.mem_cons_self) (by decide)

theorem suffixes_unnamed {suffixes x : List Char} (hs : ∀ c ∈ suffixes, isSuffix c = true)
    (hx : Stops x) : ∀ c ∈ (suffixes ++ x).head?, Token.Scan.isWordChar c = false := by
  intro c hc
  cases suffixes with
  | nil => rcases hx c hc with rfl | rfl <;> decide
  | cons d ds =>
      obtain rfl := Option.some.inj hc
      exact isWordChar_eq_false (hs d List.mem_cons_self)

/-- After the parameters comes an arrow, and after parentheses there is none. -/
theorem arrow_ne_suffixes {suffixes x y : List Char} (hs : ∀ c ∈ suffixes, isSuffix c = true)
    (hx : Stops x) : ' ' :: y ≠ suffixes ++ x := by
  intro he
  cases suffixes with
  | nil =>
      rw [List.nil_append] at he
      have := hx ' ' (he ▸ rfl)
      exact absurd this (by decide)
  | cons c cs =>
      obtain rfl := (List.cons.inj he).1
      exact absurd (hs ' ' List.mem_cons_self) (by decide)

mutual

/-- The text of a type tells the type's shape and where it ends. -/
theorem chars_append_inj (s s' : Shape) (h : s.Proper) (h' : s'.Proper) {x x' : List Char}
    (hx : Stops x) (hx' : Stops x') (he : s.chars ++ x = s'.chars ++ x') : s = s' ∧ x = x' := by
  obtain ⟨hmarks, hbody⟩ := body_of_chars h h' he
  match s, s' with
  | word m n sfx, word m' n' sfx' =>
      obtain rfl : m = m' := hmarks
      obtain ⟨_, ⟨_, hn⟩, hs⟩ := h
      obtain ⟨_, ⟨_, hn'⟩, hs'⟩ := h'
      simp only [body, List.append_assoc] at hbody
      obtain ⟨rfl, hrest⟩ := run_append_inj hn hn' (suffixes_unnamed hs hx) (suffixes_unnamed hs' hx') hbody
      obtain ⟨rfl, hend⟩ := run_append_inj hs hs' (isSuffix_of_stops hx) (isSuffix_of_stops hx') hrest
      exact ⟨rfl, hend⟩
  | word m n sfx, arrow .. | word m n sfx, group .. => exact absurd hbody h.word_ne_opening
  | arrow .., word .. | group .., word .. => exact absurd hbody.symm h'.word_ne_opening
  | arrow m ps r, arrow m' ps' r' =>
      obtain rfl : m = m' := hmarks
      obtain ⟨_, hps, hr⟩ := h
      obtain ⟨_, hps', hr'⟩ := h'
      simp only [body, List.cons_append, List.append_assoc, List.cons.injEq, true_and] at hbody
      obtain ⟨rfl, hrest⟩ := paramChars_append_inj _ ps ps' hps hps' hbody
      simp only [List.cons.injEq, true_and, List.nil_append] at hrest
      obtain ⟨rfl, hend⟩ := chars_append_inj r r' hr hr' hx hx' hrest
      exact ⟨rfl, hend⟩
  | arrow m ps r, group m' inner' sfx' =>
      obtain ⟨_, hps, hr⟩ := h
      obtain ⟨_, hinner', hs'⟩ := h'
      simp only [body, List.cons_append, List.append_assoc, List.cons.injEq, true_and] at hbody
      -- the parentheses hold the first parameter, then an arrow would have to follow them
      match ps with
      | [] => exact absurd hbody.symm hinner'.ne_closing
      | p :: ps =>
          rw [paramChars, List.append_assoc] at hbody
          obtain ⟨_, hmore⟩ := chars_append_inj p inner' hps.1 hinner' (stops_moreChars _ _ _)
            (by simp [Stops]) hbody
          match ps with
          | [] => exact absurd (List.cons.inj hmore).2 (arrow_ne_suffixes hs' hx')
          | _ :: _ => exact absurd (List.cons.inj hmore).1 (by decide)
  | group m inner sfx, arrow m' ps' r' =>
      obtain ⟨_, hinner, hs⟩ := h
      obtain ⟨_, hps', hr'⟩ := h'
      simp only [body, List.cons_append, List.append_assoc, List.cons.injEq, true_and] at hbody
      match ps' with
      | [] => exact absurd hbody hinner.ne_closing
      | p' :: ps' =>
          rw [paramChars, List.append_assoc] at hbody
          obtain ⟨_, hmore⟩ := chars_append_inj inner p' hinner hps'.1 (by simp [Stops])
            (stops_moreChars _ _ _) hbody
          match ps' with
          | [] => exact absurd (List.cons.inj hmore).2.symm (arrow_ne_suffixes hs hx)
          | _ :: _ => exact absurd (List.cons.inj hmore).1 (by decide)
  | group m inner sfx, group m' inner' sfx' =>
      obtain rfl : m = m' := hmarks
      obtain ⟨_, hinner, hs⟩ := h
      obtain ⟨_, hinner', hs'⟩ := h'
      simp only [body, List.cons_append, List.append_assoc, List.cons.injEq, true_and] at hbody
      obtain ⟨rfl, hrest⟩ := chars_append_inj inner inner' hinner hinner' (by simp [Stops])
        (by simp [Stops]) hbody
      obtain ⟨rfl, hend⟩ := run_append_inj hs hs' (isSuffix_of_stops hx) (isSuffix_of_stops hx')
        (List.cons.inj hrest).2
      exact ⟨rfl, hend⟩

theorem paramChars_append_inj (gap : List Char) (ps ps' : List Shape) (h : ProperAll ps)
    (h' : ProperAll ps') {x x' : List Char} (he : paramChars gap ps ++ x = paramChars gap ps' ++ x') :
    ps = ps' ∧ x = x' := by
  match ps, ps' with
  | [], [] => exact ⟨rfl, (List.cons.inj he).2⟩
  | [], p' :: ps' =>
      rw [paramChars, paramChars, List.append_assoc] at he
      exact absurd he.symm h'.1.ne_closing
  | p :: ps, [] =>
      rw [paramChars, paramChars, List.append_assoc] at he
      exact absurd he h.1.ne_closing
  | p :: ps, p' :: ps' =>
      rw [paramChars, paramChars, List.append_assoc, List.append_assoc] at he
      obtain ⟨rfl, hmore⟩ :=
        chars_append_inj p p' h.1 h'.1 (stops_moreChars _ _ _) (stops_moreChars _ _ _) he
      obtain ⟨rfl, hrest⟩ := moreChars_append_inj gap ps ps' h.2 h'.2 hmore
      exact ⟨rfl, hrest⟩

theorem moreChars_append_inj (gap : List Char) (ps ps' : List Shape) (h : ProperAll ps)
    (h' : ProperAll ps') {x x' : List Char} (he : moreChars gap ps ++ x = moreChars gap ps' ++ x') :
    ps = ps' ∧ x = x' := by
  match ps, ps' with
  | [], [] => exact ⟨rfl, (List.cons.inj he).2⟩
  | [], p' :: ps' => exact absurd (List.cons.inj he).1 (by decide)
  | p :: ps, [] => exact absurd (List.cons.inj he).1 (by decide)
  | p :: ps, p' :: ps' =>
      simp only [moreChars, List.cons_append, List.append_assoc, List.cons.injEq, true_and,
        List.append_cancel_left_eq] at he
      obtain ⟨rfl, hmore⟩ :=
        chars_append_inj p p' h.1 h'.1 (stops_moreChars _ _ _) (stops_moreChars _ _ _) he
      obtain ⟨rfl, hrest⟩ := moreChars_append_inj gap ps ps' h.2 h'.2 hmore
      exact ⟨rfl, hrest⟩

end

end Shape
end OnePass
