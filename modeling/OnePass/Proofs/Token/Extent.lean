import OnePass.Proofs.Typing.Faults
import OnePass.Token.Scan

/-!
Where tokens lie. Every span that is made while a text is cut lies within the text and names its file: those of
the tokens, which stand one behind the other, and the one of a failure.
-/

namespace OnePass

theorem byteCount_take_le (n : Nat) (cs : List Char) : byteCount (cs.take n) ≤ byteCount cs := by
  induction n generalizing cs with
  | zero => exact Nat.zero_le _
  | succ n ih =>
      cases cs with
      | nil => exact Nat.le_refl _
      | cons c cs => exact Nat.add_le_add_left (ih cs) _

theorem byteCount_toList (s : String) : byteCount s.toList = s.utf8ByteSize := by
  rw [← String.size_toByteArray, ← String.utf8Encode_toList]
  induction s.toList with
  | nil => rfl
  | cons c cs ih =>
      rw [List.utf8Encode_cons, ByteArray.size_append, List.utf8Encode_singleton, List.size_toByteArray,
        String.length_utf8EncodeChar, byteCount, ih]

/-- The span lies within the text of the file. -/
structure Span.Within (s : Span) (source : Source) : Prop where
  ordered : s.start ≤ s.stop
  bounded : s.stop ≤ source.size
  file : s.file = source.id

namespace Span.Within

variable {source : Source} {a b : Span}

theorem ofLength {offset length : Nat} (h : offset + length ≤ source.size) :
    (Span.ofLength offset length source.id).Within source :=
  ⟨Nat.le_add_right _ _, h, rfl⟩

theorem merge (ha : a.Within source) (hb : b.Within source) : (a.merge b).Within source where
  ordered := Nat.le_trans (Nat.min_le_left _ _) (Nat.le_trans ha.ordered (Nat.le_max_left _ _))
  bounded := Nat.max_le.mpr ⟨ha.bounded, hb.bounded⟩
  file := ha.file

theorem opening (ha : a.Within source) : a.opening.Within source where
  ordered := Nat.le_refl _
  bounded := Nat.le_trans ha.ordered ha.bounded
  file := ha.file

end Span.Within

namespace Token.Scan

variable {source : Source} {skip offset : Nat} {cs : List Char}

theorem tokens_within {ts : List Token} (h : tokens source skip offset cs = .ok ts)
    (hsize : offset + byteCount cs ≤ source.size) : ∀ t ∈ ts, t.span.Within source := by
  fun_induction tokens source skip offset cs generalizing ts with
  | case1 skip offset =>
      obtain rfl := Except.ok.inj h
      exact List.forall_mem_singleton.mpr (.ofLength hsize)
  | case2 skip offset c cs ih => exact ih h (Nat.add_assoc .. ▸ hsize)
  | case3 offset c cs _ ih => exact ih h (Nat.add_assoc .. ▸ hsize)
  | case4 => cases h
  | case5 => cases h
  | case6 offset c cs _ piece _ read later hlater =>
      rename_i ih
      obtain rfl := Except.ok.inj h
      refine List.forall_mem_cons.mpr ⟨.ofLength ?_, ih hlater (Nat.add_assoc .. ▸ hsize)⟩
      exact Nat.le_trans (Nat.add_le_add_left (byteCount_take_le _ _) _) hsize

theorem tokens_fails (hsize : offset + byteCount cs ≤ source.size) :
    Fails (tokens source skip offset cs) (·.PointsInto source (·.Within source)) := by
  fun_induction tokens source skip offset cs with
  | case1 => exact .ok
  | case2 skip offset c cs ih => exact ih (Nat.add_assoc .. ▸ hsize)
  | case3 offset c cs _ ih => exact ih (Nat.add_assoc .. ▸ hsize)
  | case4 offset c cs _ stuck =>
      refine .error (Diagnostic.pointsInto_located (.ofLength ?_))
      exact Nat.le_trans (Nat.add_le_add_left (byteCount_take_le _ _) _) hsize
  | case5 offset c cs _ piece _ d hd ih => exact .error (ih (Nat.add_assoc .. ▸ hsize) d hd)
  | case6 => exact .ok

/-- Tokens stand one behind the other, all of them behind the characters that belong to the token before. -/
theorem tokens_ordered {source : Source} {skip offset : Nat} {cs : List Char} {ts : List Token}
    (h : tokens source skip offset cs = .ok ts) :
    ts.Pairwise (fun a b => a.span.stop ≤ b.span.start) ∧
      ∀ t ∈ ts, offset + byteCount (cs.take skip) ≤ t.span.start := by
  fun_induction tokens source skip offset cs generalizing ts with
  | case1 _ offset =>
      obtain rfl := Except.ok.inj h
      exact ⟨List.pairwise_singleton _ _, by simp [byteCount, sentinel, Span.ofLength]⟩
  | case2 skip offset c cs ih =>
      obtain ⟨hordered, hbehind⟩ := ih h
      refine ⟨hordered, fun t ht => ?_⟩
      rw [List.take_succ_cons, byteCount, ← Nat.add_assoc]
      exact hbehind t ht
  | case3 offset c cs _ ih =>
      obtain ⟨hordered, hbehind⟩ := ih h
      exact ⟨hordered, fun t ht => Nat.le_trans (Nat.le_add_right _ _) (hbehind t ht)⟩
  | case4 => cases h
  | case5 => cases h
  | case6 offset c cs _ piece _ read later hlater =>
      rename_i ih
      obtain rfl := Except.ok.inj h
      obtain ⟨hordered, hbehind⟩ := ih hlater
      have hread : offset + read = offset + c.utf8Size + byteCount (cs.take piece.extra) := by
        rw [Nat.add_assoc]
        rfl
      refine ⟨List.pairwise_cons.mpr ⟨fun t ht => ?_, hordered⟩, List.forall_mem_cons.mpr
        ⟨Nat.le_refl _, fun t ht => ?_⟩⟩
      · exact Nat.le_trans (Nat.le_of_eq hread) (hbehind t ht)
      · exact Nat.le_trans (hread ▸ Nat.le_add_right _ _) (hbehind t ht)

end Token.Scan

namespace Source

variable {source : Source}

theorem byteCount_text : 0 + byteCount source.text.toList ≤ source.size := by
  rw [Nat.zero_add, byteCount_toList]
  exact Nat.le_refl _

theorem tokens_within {ts : List Token} (h : source.tokens = .ok ts) : ∀ t ∈ ts, t.span.Within source :=
  Token.Scan.tokens_within h byteCount_text

theorem tokens_ordered {ts : List Token} (h : source.tokens = .ok ts) :
    ts.Pairwise fun a b => a.span.stop ≤ b.span.start :=
  (Token.Scan.tokens_ordered h).1

theorem tokens_fails : Fails source.tokens (·.PointsInto source (·.Within source)) :=
  Token.Scan.tokens_fails byteCount_text

end Source
end OnePass
