import OnePass.Proofs.Twin.Declarations

/-!
Statements are read alike from twins and laid out as they are read, where what is shorter is; and so, what is
shorter is. A branch or a loop that is one statement without braces is still a block, and counts as one.
-/

namespace OnePass
namespace Grammar

open Token (Kind)

variable {S : Survey} {σ : Marks} {n n' d : Nat} {below : Below Parse n} {below' : Below Tracked n'} {ctx : Context}
  {o r r' : Region} {h : r.size ≤ n} {h' : r'.size ≤ n'} (hbelow : below.Twins S below') (hctx : S.Meets σ ctx)
  (hr : S.Twin r r')

include hbelow hctx hr

/-! ### Expressions as statements -/

theorem effect_alike :
    S.Alike σ (S.Makes ctx.depth r .expr) (effect below ctx r h) (effect below' ctx.place r' h') := by
  unfold effect
  refine .bind (expression_alike hbelow hctx hr _ _) ?_
  rintro ⟨e, rest⟩ ⟨_, rest'⟩ ⟨rfl, he, hrest⟩
  dsimp only
  split
  · exact .pure ⟨rfl, he, hrest⟩
  · exact .check hctx (fun _ => Typing.Setting.infer_fails he.span) fun _ => .pure ⟨rfl, he, hrest⟩

theorem exprStmt_alike :
    S.Alike σ (S.Makes ctx.depth r .stmt) (exprStmt below ctx r h) (exprStmt below' ctx.place r' h') := by
  unfold exprStmt
  refine .bind (effect_alike hbelow hctx hr) ?_
  rintro ⟨e, r₁⟩ ⟨_, r₁'⟩ ⟨rfl, he, hr₁⟩
  refine .lift (hr₁.leftTake .semicolon) ?_
  rintro ⟨_, r₂⟩ ⟨_, r₂'⟩ hsemicolon ⟨_, _, hr₂⟩
  have inside : Lays S ctx.depth r r₁ [.stmt (.expr e)] := he.wrap rfl rfl rfl rfl
  exact .pure ⟨rfl, inside.andThen (r₁.take_takes (by decide) hsemicolon).spares, hr₂⟩

/-! ### Branches and loops -/

theorem condition_alike {h : r.size < n} {h' : r'.size < n'} :
    S.Alike σ (S.Fills ctx.depth r fun e => [.expr e]) (condition below ctx r h)
      (condition below' ctx.place r' h') := by
  unfold condition
  refine .bind (hbelow.expression _ _ hctx hr) ?_
  rintro ⟨e, rest⟩ ⟨_, rest'⟩ ⟨rfl, he, hrest⟩
  refine .lift hrest.finish fun _ _ hfinish _ => ?_
  refine .check hctx (fun _ => Typing.Setting.infer_fails he.span) fun _ => ?_
  exact .pure ⟨rfl, rest, he, Region.hasNext_of_finish hfinish⟩

theorem header_alike :
    S.Alike σ (S.Makes ctx.depth r .expr) (header below ctx r h) (header below' ctx.place r' h') := by
  unfold header
  refine .lift hr.carveParens ?_
  rintro ⟨inner, rest⟩ ⟨inner', rest'⟩ hcarve ⟨hinner, hrest⟩
  dsimp only
  rw [hinner.hasNext_eq, hrest.last_eq]
  refine .guard (.located hctx.source hrest.last) fun _ => ?_
  refine .bind (condition_alike hbelow hctx hinner) ?_
  rintro e _ ⟨rfl, _, he, hdone⟩
  exact .pure ⟨rfl, he.carved (Region.carveParens_encloses hcarve) hdone, hrest⟩

theorem branch_alike (hd : ctx.depth ≤ maxDepth) {h : r.size < n} {h' : r'.size < n'} :
    S.Alike σ (S.Makes ctx.depth r .block) (branch below ctx r h) (branch below' ctx.place r' h') := by
  unfold branch
  rw [hr.headIs_eq, hr.head_eq]
  split
  · exact freshBlock_alike hbelow hctx hr hd _ _
  · refine .modifyGet fun scope => ?_
    have hscope := hctx.inScope scope
    refine .bind (hbelow.statement _ _ hscope hr) ?_
    rintro ⟨s, rest⟩ ⟨_, rest'⟩ ⟨rfl, hs, hrest⟩
    dsimp only
    rw [hrest.spanFrom_eq]
    refine .pure ⟨rfl, .node hs rest.shorter rfl (hrest.spanFrom hr.head_span) ?_ rfl, hrest⟩
    exact Nat.le_sub_of_add_le (Nat.add_comm 1 ctx.depth ▸ Nat.succ_le_succ hd)

omit hr in
theorem elseBranch_alike (hd : ctx.depth ≤ maxDepth) {l : Left r} {l' : Left r'} (hl : S.Twin l l') :
    S.Alike σ (S.Steps fun no rest => Lays S ctx.depth l rest (no.toList.map .block)) (elseBranch below ctx l h)
      (elseBranch below' ctx.place l' h') := by
  unfold elseBranch
  rcases hl.leftAccept? .kwElse with ⟨hn, hn'⟩ | ⟨_, r₁, r₁', helse, hn', _, hr₁⟩
  · rw [hn, hn']
    exact .pure ⟨rfl, .nil (.refl l), hl⟩
  · rw [helse, hn']
    have h₁ := (l.accept?_takes (by decide) helse).spares
    refine .bind (.read (branch_alike hbelow hctx hr₁ hd)) ?_
    rintro ⟨b, r₂⟩ ⟨_, r₂'⟩ ⟨rfl, hb, hr₂⟩
    exact .pure ⟨rfl, .after h₁ hb, hr₂⟩

theorem ifStmt_alike (hd : ctx.depth ≤ maxDepth) :
    S.Alike σ (S.Makes ctx.depth r .stmt) (ifStmt below ctx r h) (ifStmt below' ctx.place r' h') := by
  unfold ifStmt
  refine .lift (hr.take .kwIf) ?_
  rintro ⟨keyword, r₁⟩ ⟨_, r₁'⟩ hkeyword ⟨rfl, _, hr₁⟩
  obtain ⟨rfl, h₁, _⟩ := Region.takeOr_takes (by decide) hkeyword
  refine .bind (.read (header_alike hbelow hctx hr₁)) ?_
  rintro ⟨e, r₂⟩ ⟨_, r₂'⟩ ⟨rfl, he, hr₂⟩
  refine .bind (.read (branch_alike hbelow hctx hr₂ hd)) ?_
  rintro ⟨yes, r₃⟩ ⟨_, r₃'⟩ ⟨rfl, hyes, hr₃⟩
  refine .bind (elseBranch_alike hbelow hctx hd hr₃) ?_
  rintro ⟨no, r₄⟩ ⟨_, r₄'⟩ ⟨rfl, hno, hr₄⟩
  have inside := Lays.after h₁ ((he.append hyes).append hno)
  dsimp only
  rw [hr₄.spanFrom_eq]
  refine .pure ⟨rfl, ?_, hr₄⟩
  exact .plainNode inside r₄.shorter rfl (hr₄.spanFrom hr.head_span) rfl rfl

theorem whileStmt_alike (hd : ctx.depth ≤ maxDepth) :
    S.Alike σ (S.Makes ctx.depth r .stmt) (whileStmt below ctx r h) (whileStmt below' ctx.place r' h') := by
  unfold whileStmt
  refine .lift (hr.take .kwWhile) ?_
  rintro ⟨keyword, r₁⟩ ⟨_, r₁'⟩ hkeyword ⟨rfl, _, hr₁⟩
  obtain ⟨rfl, h₁, _⟩ := Region.takeOr_takes (by decide) hkeyword
  refine .bind (.read (header_alike hbelow hctx hr₁)) ?_
  rintro ⟨e, r₂⟩ ⟨_, r₂'⟩ ⟨rfl, he, hr₂⟩
  refine .bind (.read (.looping hctx fun hloop => freshBlock_alike hbelow hloop hr₂ hd _ _)) ?_
  rintro ⟨b, r₃⟩ ⟨_, r₃'⟩ ⟨rfl, hb, hr₃⟩
  have inside := Lays.after h₁ (he.append hb)
  dsimp only
  rw [hr₃.spanFrom_eq]
  refine .pure ⟨rfl, ?_, hr₃⟩
  exact .plainNode inside r₃.shorter rfl (hr₃.spanFrom hr.head_span) rfl rfl

theorem forInit_alike :
    S.Alike σ (S.Fills ctx.depth r fun s => [.stmt s]) (forInit below ctx r h) (forInit below' ctx.place r' h') := by
  unfold forInit
  rcases hr.next? with ⟨hn, hn'⟩ | ⟨t, r₁, r₁', hn, hn', _, hr₁⟩
  all_goals
    rw [hn, hn']
    dsimp only
  on_goal 2 =>
    split
    · rename_i hk
      have plain : t.kind.isPlain = true := by rcases hk with hk | hk <;> rw [hk] <;> rfl
      obtain ⟨rfl, h₁, _⟩ := Region.next?_takes hn plain
      refine .bind (variableDecl_alike hbelow hctx hr₁ h₁ hr.head_span) ?_
      rintro ⟨decl, rest⟩ ⟨_, rest'⟩ ⟨rfl, hdecl, hrest⟩
      exact .lift hrest.finish fun _ _ hfinish _ => .pure ⟨rfl, rest, hdecl, Region.hasNext_of_finish hfinish⟩
  -- Where there is no declaration, and where there is nothing at all, an effect is read.
  all_goals
    refine .bind (effect_alike hbelow hctx hr) ?_
    rintro ⟨e, rest⟩ ⟨_, rest'⟩ ⟨rfl, he, hrest⟩
    refine .lift hrest.finish fun _ _ hfinish _ => ?_
    exact .pure ⟨rfl, rest, he.wrap rfl rfl rfl rfl, Region.hasNext_of_finish hfinish⟩

omit hbelow hctx hr in
/-- A part that may be left out, up to the end of its region. -/
theorem part_alike {β : Type} {inner : Option (Left r)} {inner' : Option (Left r')} {f : Left r → Parse β}
    {f' : Left r' → Tracked β} {rest : Region} (part : β → Part)
    (hinner : Option.Rel (fun (l : Left r) (l' : Left r') => S.Twin l l') inner inner')
    (hrest : (inner = none → o.Spares rest) ∧ ∀ l ∈ inner, o.Encloses l rest)
    (hf : ∀ (l : Left r) (l' : Left r'), S.Twin l l' → S.Alike σ (S.Fills d l fun b => [part b]) (f l) (f' l')) :
    S.Alike σ (fun b b' => b = b' ∧ Lays S d o rest (b.toList.map part)) (inner.mapM f) (inner'.mapM f') := by
  cases hinner with
  | none => exact .pure ⟨rfl, .nil (hrest.1 rfl)⟩
  | some hl =>
      refine .map (hf _ _ hl) fun b b' => ?_
      rintro ⟨rfl, _, hb, hdone⟩
      exact ⟨rfl, hb.carved (hrest.2 _ rfl) hdone⟩

/-- The parts of the header of a counting loop. -/
theorem forHeader_alike :
    S.Alike σ (S.Fills ctx.depth r fun parts =>
        parts.1.toList.map .stmt ++ parts.2.1.toList.map .expr ++ parts.2.2.toList.map .expr)
      (forHeader below ctx r h) (forHeader below' ctx.place r' h') := by
  unfold forHeader
  refine .lift (hr.divide (by decide)) ?_
  rintro ⟨first, r₁⟩ ⟨first', r₁'⟩ hdivide ⟨hfirst, hr₁⟩
  refine .bind (part_alike .stmt hfirst (Region.divide_encloses (by decide) hdivide)
    fun _ _ hl => forInit_alike hbelow hctx hl) ?_
  rintro init _ ⟨rfl, hinit⟩
  refine .lift (hr₁.leftDivide (by decide)) ?_
  rintro ⟨second, r₂⟩ ⟨second', r₂'⟩ hdivide ⟨hsecond, hr₂⟩
  refine .bind (part_alike .expr hsecond (r₁.divide_encloses (by decide) hdivide)
    fun _ _ hl => condition_alike hbelow hctx hl) ?_
  rintro test _ ⟨rfl, htest⟩
  have both := hinit.append htest
  dsimp only
  rw [hr₂.hasNext_eq]
  split
  · rename_i hnone
    exact .pure ⟨rfl, r₂, both.append (.nil (.refl _)), by simpa using hnone⟩
  · refine .bind (effect_alike hbelow hctx hr₂) ?_
    rintro ⟨step, rest⟩ ⟨_, rest'⟩ ⟨rfl, hstep, hrest⟩
    refine .lift hrest.finish fun _ _ hfinish _ => ?_
    exact .pure ⟨rfl, rest, both.append hstep, Region.hasNext_of_finish hfinish⟩

theorem forStmt_alike (hd : ctx.depth ≤ maxDepth) :
    S.Alike σ (S.Makes ctx.depth r .stmt) (forStmt below ctx r h) (forStmt below' ctx.place r' h') := by
  unfold forStmt
  refine .lift (hr.take .kwFor) ?_
  rintro ⟨keyword, r₁⟩ ⟨_, r₁'⟩ hkeyword ⟨rfl, _, hr₁⟩
  obtain ⟨rfl, h₁, _⟩ := Region.takeOr_takes (by decide) hkeyword
  refine .lift hr₁.leftCarveParens ?_
  rintro ⟨inner, r₂⟩ ⟨inner', r₂'⟩ hcarve ⟨hinner, hr₂⟩
  refine .modifyGet fun scope => ?_
  have hscope := hctx.inScope scope
  refine .bind (forHeader_alike hbelow hscope hinner) ?_
  rintro ⟨init, test, step⟩ _ ⟨rfl, _, hheader, hdone⟩
  have h₂ := Lays.after h₁ (hheader.carved (r₁.carveParens_encloses hcarve) hdone)
  refine .bind (.read (.looping hscope fun hloop => freshBlock_alike hbelow hloop hr₂ hd _ _)) ?_
  rintro ⟨b, r₃⟩ ⟨_, r₃'⟩ ⟨rfl, hb, hr₃⟩
  dsimp only
  rw [hr₃.spanFrom_eq]
  refine .pure ⟨rfl, ?_, hr₃⟩
  exact .plainNode (h₂.append hb) r₃.shorter rfl (hr₃.spanFrom hr.head_span) rfl rfl

/-! ### Transfers of control -/

omit hr in
theorem returnValue_alike {l : Left r} {l' : Left r'} (hl : S.Twin l l') :
    S.Alike σ (S.Steps fun value rest => Lays S ctx.depth l rest (value.toList.map .expr)) (returnValue below ctx l h)
      (returnValue below' ctx.place l' h') := by
  unfold returnValue
  rw [hl.headIs_eq]
  split
  · exact .pure ⟨rfl, .nil (.refl l), hl⟩
  · refine .bind (.read (hbelow.expression _ _ hctx hl)) ?_
    rintro ⟨e, rest⟩ ⟨_, rest'⟩ ⟨rfl, he, hrest⟩
    exact .pure ⟨rfl, he, hrest⟩

theorem returnStmt_alike :
    S.Alike σ (S.Makes ctx.depth r .stmt) (returnStmt below ctx r h) (returnStmt below' ctx.place r' h') := by
  unfold returnStmt
  refine .lift (hr.take .kwReturn) ?_
  rintro ⟨keyword, r₁⟩ ⟨_, r₁'⟩ hkeyword ⟨rfl, _, hr₁⟩
  obtain ⟨rfl, h₁, _⟩ := Region.takeOr_takes (by decide) hkeyword
  refine .routine hctx ?_
  cases ctx.routine with
  | none => exact .fail hctx hr.head_span
  | some routine =>
    refine .bind (returnValue_alike hbelow hctx hr₁) ?_
    rintro ⟨value, r₂⟩ ⟨_, r₂'⟩ ⟨rfl, hvalue, hr₂⟩
    refine .lift (hr₂.leftTake .semicolon) ?_
    rintro ⟨_, r₃⟩ ⟨_, r₃'⟩ hsemicolon ⟨_, _, hr₃⟩
    have h₃ := hvalue.andThen (r₂.take_takes (by decide) hsemicolon).spares
    dsimp only
    rw [hr₃.spanFrom_eq]
    refine .check hctx (fun _ => ?_) fun _ => .pure ⟨rfl, ?_, hr₃⟩
    · exact Typing.Setting.checkReturn_fails (hr₃.spanFrom hr.head_span) fun e he =>
        hvalue.span_of_mem (List.mem_map_of_mem (Option.mem_toList.mpr he))
    · exact .plainNode (.after h₁ h₃) r₃.shorter rfl (hr₃.spanFrom hr.head_span) rfl rfl

omit hbelow in
theorem transfer_alike {kind : Kind} {make : Span → Stmt} (hkind : kind.isPlain = true)
    (hspan : ∀ span, (make span).span = span) (hparts : ∀ span, (Part.stmt (make span)).parts = [])
    (hweight : ∀ span, (Part.stmt (make span)).weight = 0) (hmake : ∀ span, (Part.stmt (make span)).isPlain = true) :
    S.Alike σ (S.Makes d r .stmt) (transfer ctx kind make r) (transfer ctx.place kind make r') := by
  unfold transfer
  refine .lift (hr.take kind) ?_
  rintro ⟨keyword, r₁⟩ ⟨_, r₁'⟩ hkeyword ⟨rfl, _, hr₁⟩
  obtain ⟨rfl, h₁, _⟩ := Region.takeOr_takes hkind hkeyword
  refine .lift (hr₁.leftTake .semicolon) ?_
  rintro ⟨_, r₂⟩ ⟨_, r₂'⟩ hsemicolon ⟨_, _, hr₂⟩
  have h₂ := h₁.trans (r₁.take_takes (by decide) hsemicolon).spares
  refine .inLoop hctx ?_
  rw [hr₂.spanFrom_eq]
  refine .guard (.located hctx.source hr.head_span) fun _ => .pure ⟨rfl, ?_, hr₂⟩
  exact .plainNode (hparts _ ▸ .nil h₂) r₂.shorter (hspan _) (hr₂.spanFrom hr.head_span)
    (hweight _) (hmake _)

/-! ### All statements -/

omit hbelow hctx in
theorem visibility_alike : S.Rests (fun _ l => r.Spares l) (visibility r) (visibility r') := by
  unfold visibility
  rcases hr.accept? .kwPublic with ⟨hp, hp'⟩ | ⟨_, r₁, r₁', hp, hp', _, hr₁⟩
  · rcases hr.accept? .kwPrivate with ⟨hv, hv'⟩ | ⟨_, r₁, r₁', hv, hv', _, hr₁⟩
    · rw [hp, hp', hv, hv']
      exact ⟨rfl, .refl r, hr⟩
    · rw [hp, hp', hv, hv']
      exact ⟨rfl, (Region.accept?_takes (by decide) hv).spares, hr₁⟩
  · rw [hp, hp']
    exact ⟨rfl, (Region.accept?_takes (by decide) hp).spares, hr₁⟩

theorem variableStmt_alike {visibility : Visibility} (ho : o.Spares r) (hstart : S.span o.head.span) :
    S.Alike σ (S.Makes ctx.depth o .stmt) (variableStmt below ctx visibility o.head r h)
      (variableStmt below' ctx.place visibility o.head r' h') := by
  unfold variableStmt
  refine .bind (variableDecl_alike hbelow hctx hr ho hstart) ?_
  rintro ⟨decl, r₁⟩ ⟨_, r₁'⟩ ⟨rfl, hdecl, hr₁⟩
  refine .lift (hr₁.leftTake .semicolon) ?_
  rintro ⟨_, r₂⟩ ⟨_, r₂'⟩ hsemicolon ⟨_, _, hr₂⟩
  exact .pure ⟨rfl, hdecl.andThen (r₁.take_takes (by decide) hsemicolon).spares, hr₂⟩

theorem visibleDecl?_alike (hd : ctx.depth ≤ maxDepth) (visibility : Visibility) :
    Option.Rel (S.Alike σ (S.Makes ctx.depth r .stmt)) (visibleDecl? below ctx visibility r h)
      (visibleDecl? below' ctx.place visibility r' h') := by
  unfold visibleDecl?
  rcases hr.next? with ⟨hn, hn'⟩ | ⟨t, r₁, r₁', hnext, hn', _, hr₁⟩
  · rw [hn, hn']
    exact .none
  · rw [hnext, hn']
    have declared (plain : t.kind.isPlain = true) :
        S.Alike σ (S.Makes ctx.depth r .stmt) (r₁.read (variableStmt below ctx visibility t r₁ (r₁.within h)))
          (r₁'.read (variableStmt below' ctx.place visibility t r₁' (r₁'.within h'))) := by
      obtain ⟨rfl, h₁, _⟩ := Region.next?_takes hnext plain
      exact .read (variableStmt_alike hbelow hctx hr₁ h₁ hr.head_span)
    dsimp only
    split
    · exact .some (functionStmt_alike hbelow hctx hr hd visibility)
    · exact .some (functionStmt_alike hbelow hctx hr hd visibility)
    · exact .some (functionStmt_alike hbelow hctx hr hd visibility)
    · exact .some (structStmt_alike hctx hr visibility)
    · rename_i hk
      exact .some (declared (hk ▸ rfl))
    · rename_i hk
      exact .some (declared (hk ▸ rfl))
    · exact .none

theorem plainStmt_alike (hd : ctx.depth ≤ maxDepth) :
    S.Alike σ (S.Makes ctx.depth r .stmt) (plainStmt below ctx r h) (plainStmt below' ctx.place r' h') := by
  unfold plainStmt
  rw [hr.head_eq]
  split
  · exact .fail hctx hr.head_span
  · exact importStmt_alike hctx hr
  · exact moduleStmt_alike hbelow hctx hr hd
  · exact enumStmt_alike hbelow hctx hr
  · exact ifStmt_alike hbelow hctx hr hd
  · exact whileStmt_alike hbelow hctx hr hd
  · exact forStmt_alike hbelow hctx hr hd
  · exact returnStmt_alike hbelow hctx hr
  · exact transfer_alike hctx hr rfl (fun _ => rfl) (fun _ => rfl) (fun _ => rfl) fun _ => rfl
  · exact transfer_alike hctx hr rfl (fun _ => rfl) (fun _ => rfl) (fun _ => rfl) fun _ => rfl
  · refine .bind (freshBlock_alike hbelow hctx hr hd _ _) ?_
    rintro ⟨b, rest⟩ ⟨_, rest'⟩ ⟨rfl, hb, hrest⟩
    exact .pure ⟨rfl, hb.wrap rfl rfl rfl rfl, hrest⟩
  · exact exprStmt_alike hbelow hctx hr

theorem statement_alike (h : r.size ≤ n) (h' : r'.size ≤ n') :
    S.Alike σ (S.Makes (ctx.depth + 1) r .stmt) (statement below ctx r h) (statement below' ctx.place r' h') := by
  unfold statement
  refine .nested hctx hr fun hd hinner => ?_
  obtain ⟨hv, h₁, hr₁⟩ := visibility_alike hr
  generalize visibility r = first at hv h₁ hr₁
  generalize visibility r' = first' at hv hr₁
  obtain ⟨v, r₁⟩ := first
  obtain ⟨_, r₁'⟩ := first'
  obtain rfl : v = _ := hv
  dsimp only
  have hvisible : Option.Rel (S.Alike σ.descend (S.Makes (ctx.depth + 1) r₁ .stmt))
      (visibleDecl? below { ctx with depth := ctx.depth + 1 } v r₁ (r₁.within h))
      (visibleDecl? below' ctx.place v r₁' (r₁'.within h')) :=
    visibleDecl?_alike hbelow hinner hr₁ hd v
  revert hvisible
  generalize visibleDecl? below { ctx with depth := ctx.depth + 1 } v r₁ (r₁.within h) = decl
  generalize visibleDecl? below' ctx.place v r₁' (r₁'.within h') = decl'
  intro hvisible
  rw [hr.head_eq]
  cases hvisible with
  | none =>
      refine .guard (.located hctx.source hr.head_span) fun _ => ?_
      exact .readKept ((plainStmt_alike hbelow hinner hr₁ hd).imp fun _ _ hs => hs.after h₁)
  | some hdecl => exact .readKept (hdecl.imp fun _ _ hs => hs.after h₁)

omit hbelow hctx hr

/-! ### Productions for shorter regions -/

theorem Below.Twins.restrict {m m' : Nat} (h : below.Twins S below') (hm : m ≤ n) (hm' : m' ≤ n') :
    (below.restrict hm).Twins S (below'.restrict hm') where
  statement _ _ := h.statement _ _
  expression _ _ := h.expression _ _
  unary _ _ := h.unary _ _
  power _ _ := h.power _ _
  tied ctx r _ := h.tied ctx r _

/-- Whatever the bounds are. -/
theorem below_twins (S : Survey) (n n' : Nat) : (Grammar.below n).Twins S (Grammar.below n') := by
  induction n generalizing n' with
  | zero =>
      refine ⟨?_, ?_, ?_, ?_, expression_below_eq⟩
      all_goals exact fun h => absurd h Region.not_lt_zero
  | succ n ih =>
      cases n' with
      | zero =>
          refine ⟨?_, ?_, ?_, ?_, expression_below_eq⟩
          all_goals exact fun _ h' => absurd h' Region.not_lt_zero
      | succ n' =>
          have inner {r r' : Region} (h : r.size < n + 1) (h' : r'.size < n' + 1) :=
            (ih n').restrict (Region.le_of_lt_succ h) (Region.le_of_lt_succ h')
          exact {
            statement := fun {_ _ r r'} h h' hctx hr => statement_alike (inner h h') hctx hr r.size_le r'.size_le
            expression := fun {_ _ r r'} h h' hctx hr => expression_alike (inner h h') hctx hr r.size_le r'.size_le
            unary := fun {_ _ r r'} h h' hctx hr => unary_alike (inner h h') hctx hr r.size_le r'.size_le
            power := fun {_ _ r r'} h h' hctx hr => power_alike (inner h h') hctx hr r.size_le r'.size_le
            tied := expression_below_eq }

end Grammar
end OnePass
