import OnePass.Proofs.Twin.Alike

/-!
Types are read alike from twins, from the front of their regions and with no imports among them, and a path is
placed from its first name to its last. The only failure that points nowhere is that of a token for a built-in
type that is the name of none.
-/

namespace OnePass

/-- A path spells its names and is placed from the first to the last. -/
def Survey.PathAt (S : Survey) (r : Region) (p : List String × Span) (l : Region) : Prop :=
  r.Spelt l p.1 ∧ p.2 = l.spanFrom r.head.span ∧ S.span p.2

namespace Grammar

open Token (Kind)

variable {S : Survey} {r r' : Region}

/-! ### Paths -/

theorem segment_alike (o : Region) (segments : List String) (hr : S.Twin r r') (h : o.Spelt r segments) :
    S.Match (S.Round (fun names l => o.Spelt l names) (fun names l => o.Spelt l names) segments)
      (segment segments r) (segment segments r') := by
  unfold segment
  rcases hr.accept? .colonColon with ⟨hn, hn'⟩ | ⟨_, r₁, r₁', hcolons, hn', _, hr₁⟩
  · rw [hn, hn']
    exact .ok (.stop h)
  · rw [hcolons, hn']
    dsimp only
    rcases hr₁.leftAccept? .identifier with ⟨hn, hn'⟩ | ⟨t, r₂, r₂', hname, hn', _, hr₂⟩
    · rw [hn, hn']
      exact .ok (.stop h)
    · rw [hname, hn']
      dsimp only
      rw [hr₂.fail_eq]
      split
      · exact .error (hr₂.fail _)
      · obtain ⟨ts, reads, spells⟩ := h
        obtain ⟨_, us, reads', hus⟩ := Region.accept?_reads (by decide) hcolons
        obtain ⟨_, vs, reads'', hvs⟩ := r₁.accept?_reads (by decide) hname
        refine .ok (.go ⟨rfl, ⟨ts ++ us ++ vs, (reads.trans reads').trans reads'', ?_⟩, hr₂⟩)
        rw [Region.significant_append, Region.significant_append, hus.1, hvs.1, List.append_assoc]
        exact .next spells hus.2 hvs.2

theorem path_alike (what : String) (hr : S.Twin r r') :
    S.Match (S.Steps (S.PathAt r)) (path r what) (path r' what) := by
  unfold path
  refine .bind (hr.takeNamed .identifier what) ?_
  rintro ⟨first, r₁⟩ ⟨_, r₁'⟩ hfirst ⟨rfl, _, hr₁⟩
  obtain ⟨rfl, ts, reads, hts⟩ := Region.accept?_reads (by decide) (Region.accept?_of_takeOr hfirst)
  have spelt : r.Spelt r₁ [r.head.lexeme] := ⟨ts, reads, hts.1.symm ▸ .name hts.2⟩
  refine .bind (S.exceptPairing.leftLoop (I := fun segments l => r.Spelt l segments)
    (fun _ _ _ _ segments hr h => segment_alike r segments hr h) hr₁ spelt) ?_
  rintro ⟨segments, r₂⟩ ⟨_, r₂'⟩ _ ⟨rfl, h₂, hr₂⟩
  dsimp only
  rw [hr₂.spanFrom_eq]
  exact .ok ⟨rfl, ⟨h₂, rfl, hr₂.spanFrom hr.head_span⟩, hr₂⟩

/-! ### Types -/

theorem typeMark_alike (hr : S.Twin r r') :
    S.Rests (fun _ l => r.Spares l) (typeMark r) (typeMark r') := by
  unfold typeMark
  rcases hr.accept? .star with ⟨hs, hs'⟩ | ⟨_, r₁, r₁', hs, hs', _, hr₁⟩
  · rcases hr.accept? .ampersand with ⟨ha, ha'⟩ | ⟨_, r₁, r₁', ha, ha', _, hr₁⟩
    · rw [hs, hs', ha, ha']
      exact ⟨rfl, .refl r, hr⟩
    · rw [hs, hs', ha, ha']
      exact ⟨rfl, (Region.accept?_takes (by decide) ha).spares, hr₁⟩
  · rw [hs, hs']
    exact ⟨rfl, (Region.accept?_takes (by decide) hs).spares, hr₁⟩

theorem primitiveType_alike (hr : S.Twin r r') :
    S.Match (S.Steps fun _ l => r.Spares l) (primitiveType r) (primitiveType r') := by
  unfold primitiveType
  refine .bind (hr.take .primitive) ?_
  rintro ⟨t, rest⟩ ⟨_, rest'⟩ htake ⟨rfl, ht, hrest⟩
  dsimp only
  split
  · exact .ok ⟨rfl, (Region.takeOr_takes (by decide) htake).spares, hrest⟩
  · exact .error fun _ => .inr ⟨t, ht, ‹_›, rfl⟩

variable {s : TypeSetting} (hs : S.locates → s.source = S.source)

include hs in
theorem namedType_alike (what : String) (hr : S.Twin r r') :
    S.Match (S.Steps fun _ l => r.Spares l) (namedType s r what) (namedType s r' what) := by
  unfold namedType
  refine .bind (path_alike what hr) ?_
  rintro ⟨⟨segments, span⟩, rest⟩ ⟨_, rest'⟩ _ ⟨rfl, ⟨spelt, _, hspan⟩, hrest⟩
  dsimp only
  split
  · exact .ok ⟨rfl, spelt.spares, hrest⟩
  · exact .error (.located hs hspan)

/-- Types are read alike from what is shorter. -/
def TypesAlike (S : Survey) {r r' : Region} (inner : TypesBelow r) (inner' : TypesBelow r') : Prop :=
  ∀ r₀ r₀' h h' what, S.Twin r₀ r₀' →
    S.Match (S.Steps fun _ l => r₀.Spares l) (inner r₀ h what) (inner' r₀' h' what)

theorem functionType_alike {inner : TypesBelow r} {inner' : TypesBelow r'} (hr : S.Twin r r')
    (hinner : TypesAlike S inner inner') :
    S.Match (S.Steps fun _ l => r.Spares l) (functionType r inner) (functionType r' inner') := by
  unfold functionType
  refine .bind hr.carveParens ?_
  rintro ⟨params, r₁⟩ ⟨params', r₁'⟩ hcarve ⟨hparams, hr₁⟩
  refine .bind (S.exceptPairing.leftItems (I := fun _ l => params.Spares l) ?_ ?_ hparams (.refl _)) ?_
  · exact fun _ _ l _ _ h hcomma => h.trans (l.accept?_takes (by decide) hcomma).spares
  · exact fun r₀ r₀' h h' _ hr₀ h₀ => (hinner r₀ r₀' h h' _ hr₀).imp fun _ _ ⟨heq, ha, hl⟩ =>
      ⟨heq, h₀.trans ha, hl⟩
  rintro types _ _ ⟨rfl, rest, hrest, hdone⟩
  have h₁ := (Region.carveParens_encloses hcarve).spares hrest hdone
  refine .bind (hr₁.leftTakeNamed .arrow _) ?_
  rintro ⟨_, r₂⟩ ⟨_, r₂'⟩ harrow ⟨_, _, hr₂⟩
  have h₂ := h₁.trans (r₁.takeNamed_takes (by decide) harrow).spares
  refine .bind (.read (hinner _ _ _ _ _ hr₂)) ?_
  rintro ⟨result, r₃⟩ ⟨_, r₃'⟩ _ ⟨rfl, h₃, hr₃⟩
  exact .ok ⟨rfl, h₂.trans h₃, hr₃⟩

include hs in
theorem arraySuffix_alike (o : Region) (element : Ty) (hr : S.Twin r r') (h : o.Spares r) :
    S.Match (S.Round (fun _ l => o.Spares l) (fun _ l => o.Spares l) element) (arraySuffix s element r)
      (arraySuffix s element r') := by
  unfold arraySuffix
  rcases hr.accept? .leftBracket with ⟨hn, hn'⟩ | ⟨_, r₁, r₁', hopen, hn', _, hr₁⟩
  · rw [hn, hn']
    exact .ok (.stop h)
  · rw [hopen, hn']
    have h₁ := h.trans (Region.accept?_takes (by decide) hopen).spares
    dsimp only
    rcases hr₁.leftAccept? .rightBracket with ⟨hn, hn'⟩ | ⟨_, r₂, r₂', hclose, hn', _, hr₂⟩
    · rw [hn, hn']
      dsimp only
      rcases hr₁.leftAccept? .integer with ⟨hn, hn'⟩ | ⟨t, r₂, r₂', hlength, hn', ht, hr₂⟩
      · rw [hn, hn']
        exact .ok (.stop h)
      · rw [hlength, hn']
        have h₂ := h₁.trans (r₁.accept?_takes (by decide) hlength).spares
        dsimp only
        rcases hr₂.leftAccept? .rightBracket with ⟨hn, hn'⟩ | ⟨_, r₃, r₃', hclose, hn', _, hr₃⟩
        · rw [hn, hn']
          exact .ok (.stop h)
        · rw [hclose, hn']
          dsimp only
          split
          · exact .ok (.go ⟨rfl, h₂.trans (r₂.accept?_takes (by decide) hclose).spares, hr₃⟩)
          · exact .error (.located hs (S.ofToken t ht.1))
    · rw [hclose, hn']
      exact .ok (.go ⟨rfl, h₁.trans (r₁.accept?_takes (by decide) hclose).spares, hr₂⟩)

include hs in
theorem baseType_alike {inner : TypesBelow r} {inner' : TypesBelow r'} (what : String) (hr : S.Twin r r')
    (hinner : TypesAlike S inner inner') :
    S.Match (S.Steps fun _ l => r.Spares l) (baseType s r inner what) (baseType s r' inner' what) := by
  unfold baseType
  rw [hr.head_eq, hr.fail_eq]
  split
  · exact primitiveType_alike hr
  · exact namedType_alike hs what hr
  · exact functionType_alike hr hinner
  · exact .error (hr.fail _)

include hs in
theorem typeFrom_alike {inner : TypesBelow r} {inner' : TypesBelow r'} (what : String) (hr : S.Twin r r')
    (hinner : TypesAlike S inner inner') :
    S.Match (S.Steps fun _ l => r.Spares l) (typeFrom s r inner what) (typeFrom s r' inner' what) := by
  unfold typeFrom
  obtain ⟨hmark, h₁, hr₁⟩ := typeMark_alike hr
  generalize typeMark r = first at hmark h₁ hr₁
  generalize typeMark r' = first' at hmark hr₁
  obtain ⟨mark, r₁⟩ := first
  obtain ⟨_, r₁'⟩ := first'
  obtain rfl : mark = _ := hmark
  refine .bind (.readKept (baseType_alike hs what hr₁ fun _ _ h h' => hinner _ _ _ _)) ?_
  rintro ⟨base, r₂⟩ ⟨_, r₂'⟩ _ ⟨rfl, h₂, hr₂⟩
  refine .bind (S.exceptPairing.leftLoop (I := fun _ l => r.Spares l)
    (fun _ _ _ _ element hr h => arraySuffix_alike hs r element hr h) hr₂ (h₁.trans h₂)) ?_
  rintro ⟨type, r₃⟩ ⟨_, r₃'⟩ _ ⟨rfl, h₃, hr₃⟩
  obtain ⟨hquestion, _, hr₄⟩ := hr₃.leftOptional .question
  dsimp only at hquestion ⊢
  exact .ok ⟨by rw [hquestion], h₃.trans (r₃.optional_spares (by decide)), hr₄⟩

include hs in
theorem typeUpTo_alike (n n' : Nat) (h : r.size < n) (h' : r'.size < n') (what : String)
    (hr : S.Twin r r') :
    S.Match (S.Steps fun _ l => r.Spares l) (typeUpTo s n r h what) (typeUpTo s n' r' h' what) := by
  induction n generalizing n' r r' what with
  | zero => exact absurd h Region.not_lt_zero
  | succ n ih =>
      cases n' with
      | zero => exact absurd h' Region.not_lt_zero
      | succ n' => exact typeFrom_alike hs what hr fun _ _ _ _ what hr₀ => ih n' _ _ what hr₀

theorem type_alike {σ : Marks} {ctx : Context} {what : String} {declaring : Option String}
    (hctx : S.locates → ctx.source = S.source) (hdeclaring : σ.declaring = declaring) (hr : S.Twin r r') :
    S.Alike σ (S.Steps fun _ l => r.Spares l) (ctx.type r what declaring) (ctx.place.type r' what declaring) := by
  subst hdeclaring
  exact fun reg => Survey.Alike.liftLast
    (typeUpTo_alike (s := ⟨reg, ctx.source, ctx.scope, σ.declaring⟩) hctx _ _ _ _ what hr) reg

end Grammar
end OnePass
