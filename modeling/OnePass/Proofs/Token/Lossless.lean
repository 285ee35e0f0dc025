import OnePass.Proofs.Token.Extent
import OnePass.Proofs.Token.Pieces

/-!
Scanning loses nothing of a text. Each of its characters lies in one token or is a blank between two, the spans
of the tokens are those of whole characters and stand in order, and the lexemes are what is written there. Where
scanning fails, all that stands in front of the failure has been cut up in this way.
-/

namespace OnePass

theorem byteCount_append (front rest : List Char) :
    byteCount (front ++ rest) = byteCount front + byteCount rest := by
  induction front with
  | nil => exact (Nat.zero_add _).symm
  | cons c front ih => rw [List.cons_append, byteCount, byteCount, ih, Nat.add_assoc]

theorem byteCount_pos {cs : List Char} (h : cs ≠ []) : 0 < byteCount cs := by
  cases cs with
  | nil => exact absurd rfl h
  | cons c cs => exact Nat.add_pos_left c.utf8Size_pos _

theorem takeBytes_byteCount (front rest : List Char) : takeBytes (byteCount front) (front ++ rest) = front := by
  induction front with
  | nil =>
      cases rest with
      | nil => rfl
      | cons c rest => exact if_neg (Nat.not_le_of_lt c.utf8Size_pos)
  | cons c front ih =>
      rw [List.cons_append, byteCount, takeBytes, if_pos (Nat.le_add_right _ _), Nat.add_sub_cancel_left, ih]

/-- A character of two runs is one of the first or one of the second. -/
theorem mem_append_cases {run middle front rest : List Char} {c : Char} (h : run ++ middle = front ++ c :: rest) :
    (∃ run', run = front ++ c :: run') ∨ ∃ front', front = run ++ front' ∧ middle = front' ++ c :: rest := by
  rcases List.append_eq_append_iff.mp h with ⟨front', hfront, hmiddle⟩ | ⟨run', hrun, hrest⟩
  · exact .inr ⟨front', hfront, hmiddle⟩
  · cases run' with
    | nil => exact .inr ⟨[], by simpa using hrun.symm, hrest.symm⟩
    | cons d run' =>
        obtain ⟨rfl, _⟩ := List.cons.inj hrest
        exact .inl ⟨run', hrun⟩

/-- The bytes from `offset` on are those of one character, and the span has them all. -/
def Span.Has (s : Span) (offset : Nat) (c : Char) : Prop :=
  s.start ≤ offset ∧ offset + c.utf8Size ≤ s.stop

namespace Source

variable {source : Source} {before middle run rest : List Char} {ts : List Token} {t : Token} {c : Char}

theorem isValid_byteCount (h : source.text.toList = before ++ rest) :
    String.Pos.Raw.IsValid source.text ⟨byteCount before⟩ := by
  refine String.Pos.Raw.isValid_iff_exists_append.mpr ⟨.ofList before, .ofList rest, ?_, ?_⟩
  · apply String.toList_inj.mp
    rw [h, String.toList_append, String.toList_ofList, String.toList_ofList]
  · have bytes := byteCount_toList (.ofList before)
    rw [String.toList_ofList] at bytes
    rw [bytes]
    rfl

theorem snippet_byteCount (h : source.text.toList = before ++ run ++ rest) :
    (source.snippet (byteCount before) (byteCount (before ++ run))).toList = run := by
  have start : source.before (byteCount before) = before := by
    rw [Source.before, h, List.append_assoc, takeBytes_byteCount]
  have stop : source.before (byteCount (before ++ run)) = before ++ run := by
    rw [Source.before, h, takeBytes_byteCount]
  rw [snippet, start, stop, String.toList_ofList, List.drop_left]

/-- The characters `middle` stand behind `before`. Each of them lies in one of the tokens or is a blank that lies in
none, and the tokens lie in order among them. -/
structure Covers (source : Source) (before middle : List Char) (ts : List Token) : Prop where
  /-- A token takes whole characters of the text, at least one of them. -/
  placed : ∀ t ∈ ts, t.kind ≠ .eof ∧ t.span.file = source.id ∧ t.span.start < t.span.stop ∧
    String.Pos.Raw.IsValid source.text ⟨t.span.start⟩ ∧ String.Pos.Raw.IsValid source.text ⟨t.span.stop⟩
  inside : ∀ t ∈ ts, byteCount before ≤ t.span.start ∧ t.span.stop ≤ byteCount (before ++ middle)
  ordered : ts.Pairwise fun a b => a.span.stop ≤ b.span.start
  shown : ∀ t ∈ ts, t.kind.Shows t.lexeme.toList (source.snippet t.span.start t.span.stop).toList
  covered : ∀ front c rest, middle = front ++ c :: rest →
    (∃! t, t ∈ ts ∧ t.span.Has (byteCount (before ++ front)) c) ∨
      isBlank c = true ∧ ∀ t ∈ ts, byteCount (before ++ front) + c.utf8Size ≤ t.span.start ∨
        t.span.stop ≤ byteCount (before ++ front)

namespace Covers

theorem nil : source.Covers before [] [] where
  placed := by simp
  inside := by simp
  ordered := .nil
  shown := by simp
  covered := by simp

theorem blank (h : source.Covers (before ++ [c]) middle ts) (hc : isBlank c = true) :
    source.Covers before (c :: middle) ts where
  placed := h.placed
  inside t ht := by
    obtain ⟨hstart, hstop⟩ := h.inside t ht
    rw [byteCount_append] at hstart
    rw [List.append_assoc] at hstop
    exact ⟨Nat.le_trans (Nat.le_add_right _ _) hstart, hstop⟩
  ordered := h.ordered
  shown := h.shown
  covered front d rest heq := by
    cases front with
    | nil =>
        obtain ⟨rfl, _⟩ := List.cons.inj heq
        refine .inr ⟨hc, fun t ht => .inl ?_⟩
        have hstart := (h.inside t ht).1
        rw [byteCount_append] at hstart
        rw [List.append_nil]
        exact hstart
    | cons d' front =>
        obtain ⟨rfl, hmiddle⟩ := List.cons.inj heq
        have later := h.covered front d rest hmiddle
        rw [List.append_assoc] at later
        exact later

theorem token (h : source.Covers (before ++ run) middle ts) (htext : source.text.toList = before ++ run ++ rest)
    (hrun : run ≠ []) (hspan : t.span = .ofLength (byteCount before) (byteCount run) source.id)
    (hkind : t.kind ≠ .eof) (hshows : t.kind.Shows t.lexeme.toList run) :
    source.Covers before (run ++ middle) (t :: ts) := by
  have hstart : t.span.start = byteCount before := by rw [hspan]; rfl
  have hstop : t.span.stop = byteCount (before ++ run) := by rw [hspan, byteCount_append]; rfl
  have hsize : byteCount before + byteCount run = byteCount (before ++ run) := (byteCount_append _ _).symm
  have hpos := byteCount_pos hrun
  constructor
  · refine List.forall_mem_cons.mpr ⟨⟨hkind, by rw [hspan]; rfl, by omega, ?_, ?_⟩, h.placed⟩
    · rw [List.append_assoc] at htext
      exact hstart ▸ isValid_byteCount htext
    · exact hstop ▸ isValid_byteCount htext
  · rw [← List.append_assoc]
    refine List.forall_mem_cons.mpr ⟨⟨Nat.le_of_eq hstart.symm, ?_⟩, fun u hu => ?_⟩
    · rw [hstop, byteCount_append _ middle]
      exact Nat.le_add_right _ _
    · have hu := h.inside u hu
      omega
  · refine List.pairwise_cons.mpr ⟨fun u hu => ?_, h.ordered⟩
    exact hstop ▸ (h.inside u hu).1
  · refine List.forall_mem_cons.mpr ⟨?_, h.shown⟩
    rw [hstart, hstop, snippet_byteCount htext]
    exact hshows
  · intro front c later heq
    have hc := c.utf8Size_pos
    rcases mem_append_cases heq with ⟨run', rfl⟩ | ⟨front', rfl, hmiddle⟩
    · have hfront := byteCount_append before front
      have hwhole : byteCount (before ++ (front ++ c :: run')) =
          byteCount (before ++ front) + (c.utf8Size + byteCount run') := by
        rw [← List.append_assoc, byteCount_append _ (c :: run'), byteCount]
      refine .inl ⟨t, ⟨List.mem_cons_self, by omega, by omega⟩, ?_⟩
      rintro u ⟨hu, hhas, _⟩
      rcases List.mem_cons.mp hu with rfl | hu
      · rfl
      · have hbehind := (h.inside u hu).1
        omega
    · have hbehind : t.span.stop ≤ byteCount (before ++ (run ++ front')) := by
        rw [hstop, ← List.append_assoc, byteCount_append _ front']
        exact Nat.le_add_right _ _
      have later := h.covered front' c _ hmiddle
      rw [List.append_assoc] at later
      rcases later with ⟨u, ⟨hu, hhas⟩, hunique⟩ | ⟨hblank, hfree⟩
      · refine .inl ⟨u, ⟨List.mem_cons_of_mem _ hu, hhas⟩, ?_⟩
        rintro v ⟨hv, hhas'⟩
        rcases List.mem_cons.mp hv with rfl | hv
        · have hstops := hhas'.2
          omega
        · exact hunique v ⟨hv, hhas'⟩
      · exact .inr ⟨hblank, List.forall_mem_cons.mpr ⟨.inr hbehind, hfree⟩⟩

end Covers

/-- What scanning makes of the characters behind `before`: tokens that cover them and the sentinel at the end of the
text; or a fault of syntax at the first character that is no blank and that no token begins with, where what is in
front of it is covered. -/
def Scanned (source : Source) (before cs : List Char) : Except Diagnostic (List Token) → Prop
  | .ok ts => ∃ front, ts = front ++ [Token.sentinel ⟨source.size, source.size, source.id⟩] ∧
      source.Covers before cs front
  | .error d => ∃ front run c rest span, cs = run ++ c :: rest ∧ source.Covers before run front ∧
      isBlank c = false ∧ (∃ stuck, Token.Scan.token c rest = .error stuck) ∧
      d.category = .syntactic ∧ d.references = [⟨source, span⟩] ∧
      span.start = byteCount (before ++ run) ∧ span.Within source

namespace Scanned

variable {cs : List Char} {out : Except Diagnostic (List Token)}

theorem blank (h : source.Scanned (before ++ [c]) cs out) (hc : isBlank c = true) :
    source.Scanned before (c :: cs) out := by
  cases out with
  | ok ts =>
      obtain ⟨front, hts, hcovers⟩ := h
      exact ⟨front, hts, hcovers.blank hc⟩
  | error d =>
      obtain ⟨front, run, e, rest, span, rfl, hcovers, hrest⟩ := h
      rw [List.append_assoc] at hrest
      exact ⟨front, c :: run, e, rest, span, rfl, hcovers.blank hc, hrest⟩

/-- A token that is cut off, and what is made of the rest. -/
theorem token (h : source.Scanned (before ++ run) cs out) (htext : source.text.toList = before ++ run ++ cs)
    (hrun : run ≠ []) (hspan : t.span = .ofLength (byteCount before) (byteCount run) source.id)
    (hkind : t.kind ≠ .eof) (hshows : t.kind.Shows t.lexeme.toList run) :
    source.Scanned before (run ++ cs) (out.map (t :: ·)) := by
  cases out with
  | ok ts =>
      obtain ⟨front, rfl, hcovers⟩ := h
      exact ⟨t :: front, rfl, hcovers.token htext hrun hspan hkind hshows⟩
  | error d =>
      obtain ⟨front, run', e, rest, span, rfl, hcovers, hrest⟩ := h
      rw [List.append_assoc] at hrest
      exact ⟨t :: front, run ++ run', e, rest, span, by simp,
        hcovers.token htext hrun hspan hkind hshows, hrest⟩

end Scanned
end Source

namespace Token.Scan

variable {source : Source} {skip offset : Nat} {before cs : List Char}

theorem piece_scanned {c : Char} {piece : Piece} {out : Except Diagnostic (List Token)}
    (htext : source.text.toList = before ++ c :: cs) (hpiece : token c cs = .ok piece)
    (later : source.Scanned (before ++ [c] ++ cs.take piece.extra) (cs.drop piece.extra) out) :
    source.Scanned before (c :: cs) (out.map (⟨piece.kind, .ofList piece.lexeme,
      .ofLength (byteCount before) (byteCount ((c :: cs).take (piece.extra + 1))) source.id⟩ :: ·)) := by
  obtain ⟨run, rest, rfl, hextra, hshows⟩ := token_fronts hpiece
  rw [hextra, List.take_left, List.drop_left, List.append_assoc, List.singleton_append] at later
  refine later.token (t := ⟨_, _, _⟩) ?_ (List.cons_ne_nil _ _) ?_ (token_ne_eof hpiece) ?_
  · rw [htext, List.append_assoc, List.cons_append]
  · rw [hextra, List.take_succ_cons, List.take_left]
  · rw [String.toList_ofList]
    exact hshows

/-- The characters that belong to the token before are passed over. -/
theorem tokens_scanned (before : List Char) (htext : source.text.toList = before ++ cs)
    (hoffset : offset = byteCount before)
    (hskip : skip ≤ cs.length) :
    source.Scanned (before ++ cs.take skip) (cs.drop skip) (tokens source skip offset cs) := by
  have hsize : byteCount (before ++ cs) = source.size := by rw [← htext, byteCount_toList]; rfl
  fun_induction tokens source skip offset cs generalizing before with
  | case1 skip offset =>
      rw [List.append_nil] at hsize
      refine ⟨[], ?_, by simpa using .nil⟩
      rw [hoffset, hsize]
      rfl
  | case2 skip offset c cs ih =>
      have later := ih (before ++ [c]) (by simpa using htext) (by simp [hoffset, byteCount_append, byteCount])
        (Nat.le_of_succ_le_succ hskip) (by simpa using hsize)
      simpa using later
  | case3 offset c cs hblank ih =>
      have later := ih (before ++ [c]) (by simpa using htext) (by simp [hoffset, byteCount_append, byteCount])
        (Nat.zero_le _) (by simpa using hsize)
      simp only [List.take_zero, List.append_nil, List.drop_zero] at later ⊢
      exact later.blank hblank
  | case4 offset c cs hblank stuck hstuck =>
      refine ⟨[], [], c, cs, _, rfl, .nil, by simpa using hblank, ⟨stuck, hstuck⟩, token_syntactic hstuck, rfl, ?_,
        .ofLength ?_⟩
      · simp [hoffset, Span.ofLength]
      · rw [← hsize, hoffset, byteCount_append]
        exact Nat.add_le_add_left (byteCount_take_le _ _) _
  | case5 offset c cs _ piece hpiece d hlater ih =>
      obtain ⟨run, rest, hcs, hextra, _⟩ := token_fronts hpiece
      have later := ih (before ++ [c]) (by simpa using htext) (by simp [hoffset, byteCount_append, byteCount])
        (by simp [hcs, hextra]) (by simpa using hsize)
      rw [hlater] at later
      rw [List.take_zero, List.append_nil, List.drop_zero]
      exact piece_scanned htext hpiece later
  | case6 offset c cs _ piece hpiece read ts hlater =>
      rename_i ih
      obtain ⟨run, rest, hcs, hextra, _⟩ := token_fronts hpiece
      have later := ih (before ++ [c]) (by simpa using htext) (by simp [hoffset, byteCount_append, byteCount])
        (by simp [hcs, hextra]) (by simpa using hsize)
      rw [hlater] at later
      have scanned := piece_scanned htext hpiece later
      rw [← hoffset] at scanned
      rw [List.take_zero, List.append_nil, List.drop_zero]
      exact scanned

end Token.Scan

/-- Whatever the text, scanning accounts for all of it: to the end, or up to the token that it fails at. -/
theorem Source.tokens_lossless (source : Source) : source.Scanned [] source.text.toList source.tokens :=
  Token.Scan.tokens_scanned [] rfl rfl (Nat.zero_le _)

end OnePass
