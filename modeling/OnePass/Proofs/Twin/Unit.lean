import OnePass.Proofs.Grammar.Settling
import OnePass.Proofs.Twin.Statements

/-!
A unit is read alike from a file and from what readers see of it, and with marks or without them; and it is laid
out as it is read. Settling calls moves nothing, so that holds of the program as well.
-/

namespace OnePass

open Grammar

/-- The tokens of a file as readers see them: without comments, up to the first sentinel and with it. -/
def Token.visible (tokens : List Token) : List Token :=
  Region.significant (tokens.takeWhile (·.kind ≠ .eof)) ++ (tokens.find? (·.kind = .eof)).toList

namespace Token

variable (tokens : List Token)

theorem takeWhile_visible : (visible tokens).takeWhile (·.kind ≠ .eof) =
    Region.significant (tokens.takeWhile (·.kind ≠ .eof)) := by
  have before : ∀ t ∈ Region.significant (tokens.takeWhile (·.kind ≠ .eof)), decide (t.kind ≠ .eof) = true :=
    fun t ht => List.all_eq_true.mp List.all_takeWhile t (List.mem_of_mem_filter ht)
  have sentinel : (tokens.find? (·.kind = .eof)).toList.takeWhile (·.kind ≠ .eof) = [] := by
    cases hs : tokens.find? (·.kind = .eof) with
    | none => rfl
    | some t =>
        have eof : t.kind = .eof := by simpa using List.find?_some hs
        simp [eof]
  rw [visible, List.takeWhile_append_of_pos before, sentinel, List.append_nil]

theorem find?_visible : (visible tokens).find? (·.kind = .eof) = tokens.find? (·.kind = .eof) := by
  have before : (Region.significant (tokens.takeWhile (·.kind ≠ .eof))).find? (·.kind = .eof) = none := by
    refine List.find?_eq_none.mpr fun t ht => ?_
    simpa using List.all_eq_true.mp List.all_takeWhile t (List.mem_of_mem_filter ht)
  rw [visible, List.find?_append, before, Option.none_or]
  cases hs : tokens.find? (·.kind = .eof) with
  | none => rfl
  | some t =>
      have eof : t.kind = .eof := by simpa using List.find?_some hs
      simp [eof]

end Token

namespace Survey

variable {S : Survey} {r r' : Region}

/-- Where reading begins. -/
theorem start (S : Survey) : S.Sees (.ofTokens S.source S.tokens) where
  source _ := rfl
  tokens := (Region.settle_suffix _).isInfix.trans (List.takeWhile_prefix _).isInfix
  stop := by
    unfold Region.ofTokens
    cases hs : S.tokens.find? (·.kind = .eof) with
    | none => exact S.last
    | some t => exact S.ofToken t (List.mem_of_find?_eq_some hs)
  last := S.first

/-- What readers see of it. -/
theorem start_visible (S : Survey) :
    S.Twin (.ofTokens S.source S.tokens) (.ofTokens S.source (Token.visible S.tokens)) where
  toSees := S.start
  same := by
    unfold Region.ofTokens
    rw [Token.find?_visible]
  pending := by
    unfold Region.ofTokens
    rw [Token.takeWhile_visible, Region.settle_significant, Region.significant_significant, Region.significant_settle]
  settles := .inr ⟨Region.settle_settle _, Region.settle_settle _⟩

theorem Outcome.eq {σ : Marks} {α : Type} {x : Except Diagnostic α × Registry} {y : Except Diagnostic α × Parser}
    (h : S.Outcome σ (· = ·) x y) : x = (y.1, y.2.registry) := by
  cases h with
  | ok h => rw [h]
  | error h => rfl

end Survey

namespace Grammar

variable {S : Survey} {r r' : Region} {d : Nat} (hr : S.Twin r r')

include hr

theorem packageDecl_alike :
    S.Match (S.Makes d r fun p => .stmt (.package p.1 p.2)) (packageDecl r) (packageDecl r') := by
  unfold packageDecl
  refine .bind (hr.take .kwPackage) ?_
  rintro ⟨keyword, r₁⟩ ⟨_, r₁'⟩ hkeyword ⟨rfl, _, hr₁⟩
  obtain ⟨rfl, h₁, _⟩ := Region.takeOr_takes (by decide) hkeyword
  refine .bind (hr₁.leftTakeNamed .identifier _) ?_
  rintro ⟨first, r₂⟩ ⟨_, r₂'⟩ hname ⟨rfl, _, hr₂⟩
  have h₂ := h₁.trans (r₁.takeNamed_takes (by decide) hname).spares
  refine .bind (S.exceptPairing.leftLoop (I := fun _ l => r.Spares l) (D := fun _ l => r.Spares l) ?_ hr₂ h₂) ?_
  · intro r₀ r₀' _ _ segments hr₀ h₀
    change S.Match _ _ _
    rcases hr₀.accept? .colonColon with ⟨hn, hn'⟩ | ⟨_, r₁, r₁', hcolons, hn', _, hr₁⟩
    · rw [hn, hn']
      exact .ok (.stop h₀)
    · rw [hcolons, hn']
      have h₁ := h₀.trans (Region.accept?_takes (by decide) hcolons).spares
      refine .bind (hr₁.leftTakeNamed .identifier _) ?_
      rintro ⟨t, r₂⟩ ⟨_, r₂'⟩ hname ⟨rfl, _, hr₂⟩
      exact .ok (.go ⟨rfl, h₁.trans (r₁.takeNamed_takes (by decide) hname).spares, hr₂⟩)
  · rintro ⟨segments, r₃⟩ ⟨_, r₃'⟩ _ ⟨rfl, h₃, hr₃⟩
    refine .bind (hr₃.leftTake .semicolon) ?_
    rintro ⟨_, r₄⟩ ⟨_, r₄'⟩ hsemicolon ⟨_, _, hr₄⟩
    have h₄ := h₃.trans (r₃.take_takes (by decide) hsemicolon).spares
    dsimp only
    rw [hr₄.spanFrom_eq]
    refine .ok ⟨rfl, ?_, hr₄⟩
    exact .plainNode (.nil h₄) r₄.shorter rfl (hr₄.spanFrom hr.head_span) rfl rfl

theorem package?_alike :
    S.Match (S.Rests fun p l => Lays S d r l (p.toList.map fun p => .stmt (.package p.1 p.2))) (package? r)
      (package? r') := by
  unfold package?
  rw [hr.headIs_eq]
  split
  · exact .ok ⟨rfl, .nil (.refl r), hr⟩
  · refine .bind (packageDecl_alike (d := d) hr) ?_
    rintro ⟨p, rest⟩ ⟨_, rest'⟩ _ ⟨rfl, hp, hrest⟩
    exact .ok ⟨rfl, hp, hrest⟩

theorem allStatements_alike {σ : Marks} {ctx : Context} (hctx : S.Meets σ ctx) :
    S.Alike σ (S.Rests fun stmts l => Lays S (ctx.depth + 1) r l (stmts.map .stmt) ∧ l.hasNext = false)
      (allStatements ctx r) (allStatements ctx.place r') :=
  statements_alike (below_twins S _ _) hctx hr _ _

omit hr in
/-- The statements of a unit, with the package in front of them. -/
theorem lays_unit {package : Option (String × Span)} {stmts : List Stmt} {r₁ rest : Region} (span : Span)
    (hpackage : Lays S d r r₁ (package.toList.map fun p => .stmt (.package p.1 p.2)))
    (hstmts : Lays S d r₁ rest (stmts.map .stmt)) :
    Lays S d r rest (Part.block
      ⟨package.toList.map (fun (name, span) => .package name span) ++ stmts, Registry.global, span⟩).parts := by
  rw [Part.parts, List.map_append, List.map_map]
  exact hpackage.append hstmts

theorem unit_alike : S.Alike {} (· = ·) (unit S.source r) (unit S.source r') := by
  unfold unit
  rw [hr.head_eq]
  refine .lift (package?_alike (d := 1) hr) ?_
  rintro ⟨package, r₁⟩ ⟨_, r₁'⟩ _ ⟨rfl, hpackage, hr₁⟩
  refine .bind (allStatements_alike hr₁ ⟨fun _ => rfl, rfl, rfl, rfl, rfl⟩) ?_
  rintro ⟨stmts, rest⟩ ⟨_, rest'⟩ ⟨rfl, ⟨hstmts, _⟩, hrest⟩
  dsimp only
  rw [hrest.spanFrom_eq]
  refine .get fun reg => ?_
  have inside := lays_unit (rest.spanFrom r.head.span) hpackage hstmts
  refine .lift (.self (fun _ => rfl) (Registry.settle_fails (.mk (hrest.spanFrom hr.head_span) inside.lies))) ?_
  rintro b _ _ rfl
  exact .pure rfl

omit hr in
theorem draft_lays {source : Source} :
    Returns (draft source r) fun out => ∃ l, Lays (.plain source r.ahead) 1 r l (Part.block out.2).parts ∧
      l.hasNext = false ∧ out.2.span = l.spanFrom r.head.span := by
  have before : Yields (package? r) fun s => Lays (.plain source r.ahead) 1 r s.2
      (s.1.toList.map fun p => .stmt (.package p.1 p.2)) ∧ (Survey.plain source r.ahead).Sees s.2 :=
    (package?_alike (Survey.plain_sees source r).twin).yields fun _ _ ⟨_, hpackage, hr₁⟩ => ⟨hpackage, hr₁.toSees⟩
  unfold draft
  refine Returns.lift fun ⟨package, r₁⟩ hp => ?_
  obtain ⟨hpackage, hr₁⟩ := before _ hp
  have behind : Returns (allStatements { source } r₁) fun out =>
      Lays (.plain source r.ahead) 1 r₁ out.2 (out.1.map .stmt) ∧ out.2.hasNext = false :=
    (allStatements_alike hr₁.twin (Survey.meets_marks nofun)).returns fun _ _ h => h.2.1
  refine Returns.bind behind ?_
  rintro ⟨stmts, rest⟩ ⟨hstmts, hdone⟩
  exact Returns.pure ⟨rest, lays_unit _ hpackage hstmts, hdone, rfl⟩

end Grammar

/-- A program that is accepted has come from one that was laid out as it was read. -/
theorem Registry.exists_lays {reg reg' : Registry} {source : Source} {tokens : List Token} {p : Program}
    (hread : reg.readTokens source tokens = (.ok p, reg')) :
    ∃ (b : Block) (l : Region), Part.Replaces (reg'.settleCall source) (.block b) (.block p.body) ∧
      Lays (.plain source (Region.ofTokens source tokens).ahead) 1 (.ofTokens source tokens) l (Part.block b).parts ∧
      (Part.block b).span = l.spanFrom (Region.ofTokens source tokens).head.span := by
  obtain ⟨package, b, hdraft, hsettle⟩ := Grammar.exists_draft hread
  obtain ⟨l, hlays, _, hspan⟩ := Grammar.draft_lays reg (package, b) reg' hdraft
  exact ⟨b, l, Part.replaces_block hsettle, hlays, hspan⟩

end OnePass
