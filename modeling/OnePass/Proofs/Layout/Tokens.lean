import Mathlib.Data.List.TakeWhile
import OnePass.Proofs.Layout.Region
import OnePass.Proofs.Token.Lossless

/-!
The tokens of a file are in order, with the sentinel behind them, so the region of all of them is orderly.
-/

namespace OnePass

/-- All tokens but the sentinel take up some of the text. -/
theorem Source.tokens_solid {source : Source} {tokens : List Token} (h : source.tokens = .ok tokens) :
    ∀ t ∈ tokens, t.kind ≠ .eof → t.span.start < t.span.stop := by
  have scanned : source.Scanned [] source.text.toList source.tokens :=
    Token.Scan.tokens_scanned [] rfl rfl (Nat.zero_le _)
  rw [h] at scanned
  obtain ⟨front, rfl, hcovers⟩ := scanned
  intro t ht kind
  rcases List.mem_append.mp ht with ht | ht
  · exact (hcovers.placed t ht).2.2.1
  · rw [List.mem_singleton.mp ht] at kind
    exact absurd rfl kind

/-- Behind the tokens of a file stands a sentinel, in order with them. -/
theorem Region.stop_ordered {source : Source} {tokens : List Token} (h : source.tokens = .ok tokens) :
    (tokens.takeWhile (·.kind ≠ .eof) ++ [(ofTokens source tokens).stop]).Pairwise (·.span.stop ≤ ·.span.start) ∧
      ∀ t ∈ tokens.takeWhile (·.kind ≠ .eof) ++ [(ofTokens source tokens).stop], t.span.Within source := by
  have ordered := Source.tokens_ordered h
  have within := Source.tokens_within h
  cases hfind : tokens.find? (·.kind = .eof) with
  | none =>
      have hstop : (ofTokens source tokens).stop = .sentinel (.ofLength source.size 0 source.id) := by
        rw [ofTokens, hfind, Option.getD_none]
      have front : tokens.takeWhile (·.kind ≠ .eof) = tokens :=
        List.takeWhile_eq_self_iff.mpr fun t ht => by simpa using List.find?_eq_none.mp hfind t ht
      rw [front, hstop]
      refine ⟨List.pairwise_append.mpr ⟨ordered, List.pairwise_singleton _ _, fun t ht s hs => ?_⟩,
        List.forall_mem_append.mpr ⟨within, List.forall_mem_singleton.mpr (.ofLength (Nat.le_refl _))⟩⟩
      rw [List.mem_singleton.mp hs]
      exact (within t ht).bounded
  | some t =>
      obtain ⟨hkind, before, after, rfl, hbefore⟩ := List.find?_eq_some_iff_append.mp hfind
      have hstop : (ofTokens source (before ++ t :: after)).stop = t := by
        rw [ofTokens, hfind, Option.getD_some]
      have front : (before ++ t :: after).takeWhile (·.kind ≠ .eof) = before := by
        rw [List.takeWhile_append_of_pos (by simpa using hbefore), List.takeWhile_cons_of_neg (by simpa using hkind),
          List.append_nil]
      rw [front, hstop]
      have shorter : (before ++ [t]).Sublist (before ++ t :: after) :=
        (List.Sublist.refl before).append (.cons_cons t (List.nil_sublist after))
      exact ⟨ordered.sublist shorter, fun s hs => within s (shorter.subset hs)⟩

theorem Region.Orderly.ofTokens {source : Source} {tokens : List Token} (h : source.tokens = .ok tokens) :
    (Region.ofTokens source tokens).Orderly source := by
  obtain ⟨ordered, within⟩ := Region.stop_ordered h
  have shorter := (List.dropWhile_suffix Token.isComment (l := tokens.takeWhile (·.kind ≠ .eof))).sublist.append
    (List.Sublist.refl [(Region.ofTokens source tokens).stop])
  refine ⟨Region.settle_settle _, ?_, ?_, fun t ht => ?_⟩
  · refine List.pairwise_cons.mpr ⟨fun _ _ => Nat.zero_le _, ?_⟩
    exact List.pairwise_map.mpr (ordered.sublist shorter)
  · refine List.forall_mem_cons.mpr ⟨.ofLength (Nat.zero_le _), List.forall_mem_map.mpr fun t ht => ?_⟩
    exact within t (shorter.subset ht)
  · have ahead := (List.dropWhile_suffix Token.isComment).subset ht
    have kind : t.kind ≠ .eof := by simpa using List.mem_takeWhile_imp ahead
    exact Source.tokens_solid h t ((List.takeWhile_prefix _).subset ahead) kind

end OnePass
