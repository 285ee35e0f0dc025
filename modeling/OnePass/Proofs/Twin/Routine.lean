import OnePass.Proofs.Twin.Types

/-!
Blocks, parameters and bodies are read alike from twins and laid out as they are read, where what is shorter is.
-/

namespace OnePass
namespace Grammar

open Token (Kind)

/-- Productions for shorter regions read twins alike. A statement has come one level down, and what it is made of
is that much shallower. Expressions are read on the one side as `Misdeclares` has it. -/
structure Below.Twins (S : Survey) {n n' : Nat} (below : Below Parse n) (below' : Below Tracked n') : Prop where
  statement {σ : Marks} {ctx : Context} {r r' : Region} (h : r.size < n) (h' : r'.size < n') :
    S.Meets σ ctx → S.Twin r r' →
      S.Alike σ (S.Makes (ctx.depth + 1) r .stmt) (below.statement ctx r h) (below'.statement ctx.place r' h')
  expression {σ : Marks} {ctx : Context} {r r' : Region} (h : r.size < n) (h' : r'.size < n') :
    S.Meets σ ctx → S.Twin r r' →
      S.Alike σ (S.Makes ctx.depth r .expr) (below.expression ctx r h) (below'.expression ctx.place r' h')
  unary {σ : Marks} {ctx : Context} {r r' : Region} (h : r.size < n) (h' : r'.size < n') :
    S.Meets σ ctx → S.Twin r r' →
      S.Alike σ (S.Makes ctx.depth r .expr) (below.unary ctx r h) (below'.unary ctx.place r' h')
  power {σ : Marks} {ctx : Context} {r r' : Region} (h : r.size < n) (h' : r'.size < n') :
    S.Meets σ ctx → S.Twin r r' →
      S.Alike σ (S.Makes ctx.depth r .expr) (below.power ctx r h) (below'.power ctx.place r' h')
  tied (ctx : Context) (r : Region) (h : r.size < n) : below.expression ctx r h = expressionAt ctx r

variable {S : Survey} {σ : Marks} {n n' : Nat} {below : Below Parse n} {below' : Below Tracked n'} {ctx : Context}
  {r r' : Region} (hbelow : below.Twins S below') (hctx : S.Meets σ ctx) (hr : S.Twin r r')

/-! ### Blocks -/

include hbelow hctx hr

/-- Statements are read up to the end of their region. -/
theorem statements_alike (h : r.size < n) (h' : r'.size < n') :
    S.Alike σ (S.Rests fun stmts l => Lays S (ctx.depth + 1) r l (stmts.map .stmt) ∧ l.hasNext = false)
      (statements below ctx r h) (statements below' ctx.place r' h') := by
  refine (S.parsePairing σ).loop
    (I := fun stmts l => Lays S (ctx.depth + 1) r l (List.map Part.stmt stmts)) ?_ hr (.nil (.refl r))
  intro r₀ r₀' h₀ h₀' before hr₀ hbefore
  change S.Alike σ _ _ _
  rw [hr₀.hasNext_eq]
  split
  · rename_i hdone
    exact .pure (.stop ⟨hbefore, by simpa using hdone⟩)
  · rcases hr₀.accept? .semicolon with ⟨hn, hn'⟩ | ⟨_, r₁, r₁', hsemicolon, hn', _, hr₁⟩
    · rw [hn, hn']
      refine .bind (hbelow.statement _ _ hctx hr₀) ?_
      rintro ⟨s, r₁⟩ ⟨_, r₁'⟩ ⟨rfl, hs, hr₁⟩
      have both : Lays S (ctx.depth + 1) r r₁ ((before ++ [s]).map .stmt) := by
        rw [List.map_append]
        exact hbefore.append hs
      exact .pure (.go ⟨rfl, both, hr₁⟩)
    · rw [hsemicolon, hn']
      exact .pure (.go ⟨rfl, hbefore.andThen (Region.accept?_takes (by decide) hsemicolon).spares, hr₁⟩)

theorem block_alike (hd : ctx.depth ≤ maxDepth) (h : r.size ≤ n) (h' : r'.size ≤ n') :
    S.Alike σ (S.Makes ctx.depth r .block) (block below ctx r h) (block below' ctx.place r' h') := by
  unfold block
  refine .lift hr.carveBraces ?_
  rintro ⟨inner, rest⟩ ⟨inner', rest'⟩ hcarve ⟨hinner, hrest⟩
  refine .bind (statements_alike hbelow hctx hinner _ _) ?_
  rintro ⟨stmts, _⟩ ⟨_, _⟩ ⟨rfl, ⟨hstmts, hdone⟩, _⟩
  dsimp only
  rw [hrest.spanFrom_eq, hr.head_eq]
  refine .pure ⟨rfl, .node (hstmts.carved (Region.carveBraces_encloses hcarve) hdone) rest.shorter rfl
    (hrest.spanFrom hr.head_span) ?_ rfl, hrest⟩
  exact Nat.le_sub_of_add_le (Nat.add_comm 1 ctx.depth ▸ Nat.succ_le_succ hd)

theorem freshBlock_alike (hd : ctx.depth ≤ maxDepth) (h : r.size ≤ n) (h' : r'.size ≤ n') :
    S.Alike σ (S.Makes ctx.depth r .block) (freshBlock below ctx r h) (freshBlock below' ctx.place r' h') := by
  refine .modifyGet fun scope => ?_
  have hscope := hctx.inScope scope
  exact block_alike hbelow hscope hr hd h h'

/-! ### Parts of functions -/

omit hbelow in
theorem parameter_alike (d : Nat) (before : List (Option Param)) :
    S.Alike σ (S.Steps fun p l => Lays S d r l (p.toList.map .param)) (parameter ctx before r)
      (parameter ctx.place before r') := by
  unfold parameter
  rw [hr.fail_eq]
  refine .guard (hr.fail _) fun _ => ?_
  rcases hr.accept? .ellipsis with ⟨hn, hn'⟩ | ⟨_, rest, rest', hdots, hn', _, hrest⟩
  · rw [hn, hn']
    refine .lift (hr.takeNamed .identifier _) ?_
    rintro ⟨name, r₁⟩ ⟨_, r₁'⟩ hname ⟨rfl, _, hr₁⟩
    obtain ⟨rfl, h₁, _⟩ := Region.takeOr_takes (by decide) hname
    refine .lift (hr₁.leftTakeNamed .colon _) ?_
    rintro ⟨_, r₂⟩ ⟨_, r₂'⟩ hcolon ⟨_, _, hr₂⟩
    have h₂ := h₁.trans (r₁.takeNamed_takes (by decide) hcolon).spares
    refine .bind (.read (type_alike hctx.source hctx.declaring hr₂)) ?_
    rintro ⟨type, r₃⟩ ⟨_, r₃'⟩ ⟨rfl, h₃, hr₃⟩
    refine .guard (.located hctx.source hr.head_span) fun _ => ?_
    refine .guard (.located hctx.source hr.head_span) fun _ => ?_
    refine .enter hctx hr.head_span ?_
    rw [hr₃.spanFrom_eq]
    exact .pure ⟨rfl, .plainNode (.nil (h₂.trans h₃)) r₃.shorter rfl (hr₃.spanFrom hr.head_span) rfl rfl, hr₃⟩
  · rw [hdots, hn']
    exact .pure ⟨rfl, .nil (Region.accept?_takes (by decide) hdots).spares, hrest⟩

omit hbelow in
theorem parameters_alike (d : Nat) :
    S.Alike σ (S.Fills d r (·.1.map .param)) (parameters ctx r) (parameters ctx.place r') := by
  refine .bind (.items (fun p => p.toList.map .param)
    (fun _ _ _ _ before hr => parameter_alike hctx hr d before) hr) ?_
  rintro all _ ⟨rfl, l, hall, hdone⟩
  refine .pure ⟨rfl, l, ?_, hdone⟩
  dsimp only
  rw [List.filterMap_eq_flatMap_toList, List.map_flatMap]
  exact hall

theorem body_alike (hd : ctx.depth ≤ maxDepth) (routine : Enclosing) (h : r.size ≤ n) (h' : r'.size ≤ n') :
    S.Alike σ (S.Makes ctx.depth r .block) (body below ctx routine r h) (body below' ctx.place routine r' h') := by
  unfold body
  refine .bind (.inside hctx fun hinner => block_alike hbelow hinner hr hd _ _) ?_
  rintro ⟨b, rest⟩ ⟨_, rest'⟩ ⟨rfl, hb, hrest⟩
  exact .guard (.located hctx.source hb.span) fun _ => .pure ⟨rfl, hb, hrest⟩

end Grammar
end OnePass
