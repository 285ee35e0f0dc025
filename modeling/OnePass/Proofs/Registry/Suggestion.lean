import Mathlib.Data.List.Induction
import OnePass.Proofs.Text.EditDistance
import OnePass.Registry.Lookup

/-!
What is suggested for a name that is not known. Everything that is seen from a scope has a score: how far its
internal name is from the query, where a name that lacks or adds characters only is not far at all, and then by how
much the lengths differ. The first of those with the least score is suggested, unless all of them are too far.
-/

namespace OnePass

/-- One of two texts is left when characters of the other are dropped. -/
def Resembles (s t : String) : Prop := s.toList.Sublist t.toList ∨ t.toList.Sublist s.toList

instance (s t : String) : Decidable (Resembles s t) :=
  inferInstanceAs (Decidable (s.toList.Sublist t.toList ∨ t.toList.Sublist s.toList))

theorem Resembles.refl (s : String) : Resembles s s := .inl (.refl _)

/-- Texts of one length of which one resembles the other are the same. -/
theorem Resembles.eq {s t : String} (h : Resembles s t) (hlength : s.length = t.length) : s = t := by
  rw [← String.length_toList, ← String.length_toList] at hlength
  rcases h with h | h
  · exact String.toList_inj.mp (h.eq_of_length hlength)
  · exact (String.toList_inj.mp (h.eq_of_length hlength.symm)).symm

/-- How far a definition is from a query, and by how much its name is longer or shorter. -/
def Definition.score (distance : String → String → Nat) (query : String) (d : Definition) : Nat × Nat :=
  (if Resembles query d.symbol.internal then 0 else distance query d.symbol.internal,
    ((query.length : Int) - d.symbol.internal.length).natAbs)

/-- The first of those with the least score. -/
def FirstLeast {α : Type} (score : α → Nat × Nat) (xs : List α) (x : α) : Prop :=
  ∃ before after, xs = before ++ x :: after ∧
    (∀ y ∈ before, Prod.Lex (· < ·) (· < ·) (score x) (score y)) ∧
    ∀ y ∈ after, ¬Prod.Lex (· < ·) (· < ·) (score y) (score x)

namespace FirstLeast

variable {α : Type} {score : α → Nat × Nat} {xs : List α} {x y : α}

theorem mem (h : FirstLeast score xs x) : x ∈ xs := by
  obtain ⟨before, after, rfl, _⟩ := h
  simp

theorem least (h : FirstLeast score xs x) (hy : y ∈ xs) : ¬Prod.Lex (· < ·) (· < ·) (score y) (score x) := by
  obtain ⟨before, after, rfl, hbefore, hafter⟩ := h
  rcases List.mem_append.mp hy with hy | hy
  · have := hbefore y hy
    simp only [Prod.lex_def] at this ⊢
    omega
  · rcases List.mem_cons.mp hy with rfl | hy
    · simp only [Prod.lex_def]
      omega
    · exact hafter y hy

theorem singleton (x : α) : FirstLeast score [x] x := ⟨[], [], rfl, nofun, nofun⟩

/-- The last element takes the place of the first least one only if its score is less. -/
theorem replace (h : FirstLeast score xs x) (hless : Prod.Lex (· < ·) (· < ·) (score y) (score x)) :
    FirstLeast score (xs ++ [y]) y := by
  refine ⟨xs, [], rfl, fun z hz => ?_, nofun⟩
  have := h.least hz
  simp only [Prod.lex_def] at hless this ⊢
  omega

theorem keep (h : FirstLeast score xs x) (hless : ¬Prod.Lex (· < ·) (· < ·) (score y) (score x)) :
    FirstLeast score (xs ++ [y]) x := by
  obtain ⟨before, after, rfl, hbefore, hafter⟩ := h
  refine ⟨before, after ++ [y], by simp, hbefore, fun z hz => ?_⟩
  rcases List.mem_append.mp hz with hz | hz
  · exact hafter z hz
  · exact List.mem_singleton.mp hz ▸ hless

theorem unique (hx : FirstLeast score xs x) (hy : FirstLeast score xs y) : x = y := by
  -- of two that stand at different places the one behind is both less and not less
  have apart {before after mid after' : List α} {x y : α} (h : y :: after = mid ++ x :: after')
      (hx : ∀ z ∈ before ++ mid, Prod.Lex (· < ·) (· < ·) (score x) (score z))
      (hy : ∀ z ∈ after, ¬Prod.Lex (· < ·) (· < ·) (score z) (score y)) : x = y := by
    cases mid with
    | nil => exact (List.cons.inj h).1.symm
    | cons z mid =>
        obtain ⟨rfl, rfl⟩ := List.cons.inj h
        exact absurd (hx y (by simp)) (hy x (by simp))
  obtain ⟨before, after, rfl, hx, hx'⟩ := hx
  obtain ⟨before', after', heq, hy, hy'⟩ := hy
  rcases List.append_eq_append_iff.mp heq with ⟨mid, rfl, h⟩ | ⟨mid, rfl, h⟩
  · exact (apart h hy hx').symm
  · exact apart h hx hy'

end FirstLeast

namespace Registry

theorem suggestionScore_eq (query : String) (d : Definition) :
    suggestionScore query d.symbol.internal = d.score editDistance query := by
  unfold suggestionScore Definition.score
  have same : ((query.length : Int) - d.symbol.internal.length).natAbs =
      max query.length d.symbol.internal.length - min query.length d.symbol.internal.length := by omega
  rw [same]
  exact congrArg (·, _) (if_congr (editDistance_eq_iff query d.symbol.internal) rfl rfl)

/-- Going through the definitions, the first of those with the least score so far is at hand. -/
theorem foldl_closer (query : String) (ds : List Definition) :
    (ds = [] ∧ ds.foldl (closer query) none = none) ∨
      ∃ d, FirstLeast (·.score editDistance query) ds d ∧
        ds.foldl (closer query) none = some (d, d.score editDistance query) := by
  induction ds using List.reverseRecOn with
  | nil => exact .inl ⟨rfl, rfl⟩
  | append_singleton ds y ih =>
      right
      rw [List.foldl_append, List.foldl_cons, List.foldl_nil]
      rcases ih with ⟨rfl, hnone⟩ | ⟨d, hd, hsome⟩
      · refine ⟨y, .singleton y, ?_⟩
        rw [hnone, closer, suggestionScore_eq]
      · rw [hsome, closer, suggestionScore_eq]
        by_cases hless : Prod.Lex (· < ·) (· < ·) (y.score editDistance query) (d.score editDistance query)
        · exact ⟨y, hd.replace hless, if_pos (Prod.lex_def.mp hless)⟩
        · exact ⟨d, hd.keep hless, if_neg (fun h => hless (Prod.lex_def.mpr h))⟩

/-- The suggestion is the first of those with the least score, if that is not too far. -/
theorem suggestion?_eq_some_iff {r : Registry} {id : ScopeId} {query : String} {d : Definition} :
    r.suggestion? id query = some d ↔
      (d.score editDistance query).1 ≤ 4 ∧ FirstLeast (·.score editDistance query) (r.visible id) d := by
  unfold suggestion?
  rcases foldl_closer query (r.visible id) with ⟨hnil, hnone⟩ | ⟨x, hx, hsome⟩
  · rw [hnone]
    refine ⟨nofun, fun h => ?_⟩
    have := h.2.mem
    rw [hnil] at this
    cases this
  · rw [hsome]
    dsimp only
    constructor
    · intro h
      split at h
      · obtain rfl := Option.some.inj h
        exact ⟨‹_›, hx⟩
      · cases h
    · rintro ⟨hle, hd⟩
      obtain rfl := hx.unique hd
      exact if_pos hle

theorem suggestion?_eq_none_iff {r : Registry} {id : ScopeId} {query : String} :
    r.suggestion? id query = none ↔ ∀ d ∈ r.visible id, 4 < (d.score editDistance query).1 := by
  unfold suggestion?
  rcases foldl_closer query (r.visible id) with ⟨hnil, hnone⟩ | ⟨x, hx, hsome⟩
  · rw [hnone, hnil]
    exact ⟨fun _ => nofun, fun _ => rfl⟩
  · rw [hsome]
    dsimp only
    rw [ite_eq_right_iff]
    constructor
    · intro h d hd
      have least := hx.least hd
      have far : ¬(x.score editDistance query).1 ≤ maxSuggestionDistance := fun hle => nomatch h hle
      simp only [Prod.lex_def, maxSuggestionDistance] at least far
      omega
    · intro h hle
      exact absurd hle (Nat.not_le_of_lt (h x hx.mem))

/-- What has the very name that is looked for has the least score of all, and nothing else has it. -/
theorem score_eq_zero_iff {query : String} {d : Definition} :
    d.score editDistance query = (0, 0) ↔ d.symbol.internal = query := by
  constructor
  · intro h
    obtain ⟨hdistance, hlength⟩ := Prod.mk.inj h
    have hlength : query.length = d.symbol.internal.length := by omega
    have resembles : Resembles query d.symbol.internal := by
      by_cases hr : Resembles query d.symbol.internal
      · exact hr
      · rw [if_neg hr] at hdistance
        exact (editDistance_eq_iff _ _).mp (by omega)
    exact (resembles.eq hlength).symm
  · rintro rfl
    rw [Definition.score, if_pos (.refl _), Int.sub_self]
    rfl

/-- Nothing is suggested exactly if all that is seen is too far from the query; otherwise it is the first of
those with the least score, those of inner scopes before those further out. So a name that is known is suggested
for itself. Any distance will do that is a least number of edits, as the one in use is. -/
theorem suggestion?_closest {distance : String → String → Nat} (hdistance : IsEditDistance distance)
    (r : Registry) (id : ScopeId) (query : String) :
    (r.suggestion? id query = none ↔ ∀ d ∈ r.visible id, 4 < (d.score distance query).1) ∧
      (∀ d, r.suggestion? id query = some d ↔
        (d.score distance query).1 ≤ 4 ∧ FirstLeast (·.score distance query) (r.visible id) d) ∧
      (∀ d ∈ r.visible id, d.symbol.internal = query →
        ∃ d', r.suggestion? id query = some d' ∧ d'.symbol.internal = query) ∧
      IsEditDistance editDistance := by
  obtain rfl := hdistance.eq
  refine ⟨suggestion?_eq_none_iff, fun _ => suggestion?_eq_some_iff, fun d hd hname => ?_, hdistance⟩
  have zero := score_eq_zero_iff.mpr hname
  cases hs : r.suggestion? id query with
  | none =>
      have := suggestion?_eq_none_iff.mp hs d hd
      rw [zero] at this
      cases this
  | some d' =>
      refine ⟨d', rfl, score_eq_zero_iff.mp ?_⟩
      have least := (suggestion?_eq_some_iff.mp hs).2.least hd
      simp only [zero, Prod.lex_def] at least
      exact Prod.ext (by simp only; omega) (by simp only; omega)

/-- A name further out is suggested for itself although one that resembles it is nearer by; for a query that is far
from both there is nothing. -/
theorem suggestion?_closest_outer :
    let inner : Definition := .variable ⟨⟨"fact", "fact", .ofLength 0 4 0⟩, .bool⟩
    let outer : Definition := .variable ⟨⟨"factorial", "factorial", .ofLength 5 9 0⟩, .bool⟩
    let r : Registry := { scopes := [{ kind := .global, definitions := [outer] },
      { kind := .block, enclosing := [global], definitions := [inner] }] }
    r.visible 1 = [inner, outer] ∧
      (∃ d, r.suggestion? 1 "factorial" = some d ∧ d.symbol.internal = "factorial") ∧
      r.suggestion? 1 "zzzzz" = none := by
  intro inner outer r
  have visible : r.visible 1 = [inner, outer] := rfl
  have closest := suggestion?_closest isEditDistance_editDistance r 1
  refine ⟨visible, (closest "factorial").2.2.1 outer (by simp [visible]) rfl, ?_⟩
  refine (closest "zzzzz").1.mpr ?_
  rw [visible]
  exact List.forall_mem_cons.mpr ⟨by decide +kernel, List.forall_mem_singleton.mpr (by decide +kernel)⟩

end Registry
end OnePass
