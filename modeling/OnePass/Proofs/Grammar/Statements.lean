import OnePass.Proofs.Grammar.Declarations

/-!
Statements: what each production gives, and then all of them together. Since every production gives what
it should as long as those for shorter regions do, all give it, by induction on the size.
-/

namespace OnePass

open Grammar

namespace Grammar

variable {rd : Reading} {n hi : Nat} {below : Below Parse n} {ctx : Context} {r : Region} {h : r.size ≤ n}
  {reg : Registry}

/-! ### Expressions as statements -/

theorem effect_gives (hbelow : below.Sound) (hready : rd.Ready reg ctx.scope)
    (hr : r.Faces (rd.view reg) hi) : rd.Gives (effect below ctx r h) reg (rd.Reads hi (ctx.Expr rd)) := by
  unfold effect
  refine .bind (expression_gives hbelow hready hr) fun ⟨e, rest⟩ reg₁ h₁ ⟨hrest, he⟩ => ?_
  dsimp only
  split
  · exact .pure ⟨hrest, he⟩
  · exact .check fun _ _ => .pure ⟨hrest, he⟩

theorem exprStmt_gives (hbelow : below.Sound) (hready : rd.Ready reg ctx.scope)
    (hr : r.Faces (rd.view reg) hi) : rd.Gives (exprStmt below ctx r h) reg (rd.Reads hi (ctx.Stmt rd)) := by
  unfold exprStmt
  refine .bind (effect_gives hbelow hready hr) fun ⟨e, r₁⟩ reg₁ h₁ ⟨hr₁, he⟩ => ?_
  refine .lift (fun _ => r₁.take_took hr₁) fun ⟨_, r₂⟩ ⟨_, _, hr₂⟩ => ?_
  exact .pure ⟨hr₂, rfl, .intro (hready.mono h₁) .refl trivial (List.forall_mem_singleton.mpr he)
    trivial trivial⟩

/-! ### Branches and loops -/

theorem condition_gives {h : r.size < n} (hbelow : below.Sound) (hready : rd.Ready reg ctx.scope)
    (hr : r.Faces (rd.view reg) hi) :
    rd.Gives (condition below ctx r h) reg fun e reg₁ => rd.Leads hi rd.start reg₁ ∧ ctx.Expr rd e reg₁ := by
  unfold condition
  refine .bind (hbelow.expression ctx hready hr) fun ⟨e, rest⟩ reg₁ h₁ ⟨hrest, he⟩ => ?_
  refine .lift (P := fun _ => True) (fun _ _ => trivial) fun _ _ => ?_
  exact .check fun _ _ => .pure ⟨hrest.done, he⟩

theorem header_gives (hbelow : below.Sound) (hready : rd.Ready reg ctx.scope) (hr : r.Faces (rd.view reg) hi) :
    rd.Gives (header below ctx r h) reg (rd.Reads hi (ctx.Expr rd)) := by
  unfold header
  refine .lift (fun _ => hr.carve) fun ⟨inner, rest⟩ ⟨mid, carved⟩ => ?_
  refine .guard fun _ => ?_
  refine .bind (condition_gives hbelow hready carved.inner) fun e reg₁ h₁ ⟨hdone, he⟩ => ?_
  exact .pure ⟨carved.resumes rfl hdone, he⟩

theorem branch_gives {h : r.size < n} (hbelow : below.Sound) (hready : rd.Ready reg ctx.scope)
    (hr : r.Faces (rd.view reg) hi) :
    rd.Gives (branch below ctx r h) reg
      (rd.Reads hi fun b reg => reg.Inner b.scope ∧ rd.Built reg ctx.site (.block b)) := by
  unfold branch
  split
  · exact freshBlock_gives ctx hbelow hready hr
  · refine .openScope hready (.inl rfl) hr fun scope reg₁ h₁ hscope hfresh hr => ?_
    refine .bind (hbelow.statement { ctx with scope } hscope hfresh.allows hr) ?_
    rintro ⟨s, rest⟩ reg₂ h₂ ⟨hrest, hpackage, hs⟩
    exact .pure ⟨hrest, (hfresh.mono h₂).1, .intro (hready.mono (h₁.trans h₂)) .refl
      (hscope.mono h₂).knows (List.forall_mem_singleton.mpr hs)
      (noPackage_sited (List.forall_mem_singleton.mpr hpackage)) trivial⟩

theorem elseBranch_gives {l : Left r} (hbelow : below.Sound) (hready : rd.Ready reg ctx.scope)
    (hl : l.Faces (rd.view reg) hi) :
    rd.Gives (elseBranch below ctx l h) reg
      (rd.Reads hi fun no reg => ∀ b ∈ no, reg.Inner b.scope ∧ rd.Built reg ctx.site (.block b)) := by
  unfold elseBranch
  split
  · exact .pure ⟨hl, by simp⟩
  · rename_i r₁ helse
    refine .bind (.read (branch_gives hbelow hready (l.accept?_took hl helse).2.2)) ?_
    intro ⟨b, r₂⟩ reg₁ h₁ ⟨hr₂, hb⟩
    exact .pure ⟨hr₂, fun b' hb' => Option.some.inj hb' ▸ hb⟩

theorem ifStmt_gives (hbelow : below.Sound) (hready : rd.Ready reg ctx.scope) (hr : r.Faces (rd.view reg) hi) :
    rd.Gives (ifStmt below ctx r h) reg (rd.Reads hi (ctx.Stmt rd)) := by
  unfold ifStmt
  refine .lift (fun _ => hr.takeOr) fun ⟨keyword, r₁⟩ ⟨_, _, hr₁⟩ => ?_
  refine .bind (.read (header_gives hbelow hready hr₁)) fun ⟨e, r₂⟩ reg₁ h₁ ⟨hr₂, he⟩ => ?_
  have hready₁ := hready.mono h₁
  refine .bind (.read (branch_gives hbelow hready₁ hr₂)) ?_
  rintro ⟨yes, r₃⟩ reg₂ h₂ ⟨hr₃, hinner, hyes⟩
  have hready₂ := hready₁.mono h₂
  refine .bind (elseBranch_gives hbelow hready₂ hr₃) fun ⟨no, r₄⟩ reg₃ h₃ ⟨hr₄, hno⟩ => ?_
  refine .pure ⟨hr₄, rfl, .intro (hready₂.mono h₃) .refl trivial (List.forall_mem_cons.mpr
    ⟨he.mono (h₂.trans h₃), List.forall_mem_cons.mpr ⟨hyes.mono h₃, ?_⟩⟩)
    ⟨hinner.mono h₃.grows, fun b hb => (hno b hb).1⟩ trivial⟩
  intro child hc
  obtain ⟨b, hb, rfl⟩ := List.mem_map.mp hc
  exact (hno b (Option.mem_toList.mp hb)).2

theorem whileStmt_gives (hbelow : below.Sound) (hready : rd.Ready reg ctx.scope)
    (hr : r.Faces (rd.view reg) hi) : rd.Gives (whileStmt below ctx r h) reg (rd.Reads hi (ctx.Stmt rd)) := by
  unfold whileStmt
  refine .lift (fun _ => hr.takeOr) fun ⟨keyword, r₁⟩ ⟨_, _, hr₁⟩ => ?_
  refine .bind (.read (header_gives hbelow hready hr₁)) fun ⟨e, r₂⟩ reg₁ h₁ ⟨hr₂, he⟩ => ?_
  have hready₁ := hready.mono h₁
  refine .bind (.read (freshBlock_gives { ctx with inLoop := true } hbelow hready₁ hr₂)) ?_
  rintro ⟨b, r₃⟩ reg₂ h₂ ⟨hr₃, hinner, hb⟩
  exact .pure ⟨hr₃, rfl, .intro (hready₁.mono h₂) .refl trivial
    (List.forall_mem_cons.mpr ⟨he.mono h₂, List.forall_mem_singleton.mpr hb⟩) hinner trivial⟩

theorem forInit_gives (hbelow : below.Sound) (hready : rd.Ready reg ctx.scope)
    (hallows : rd.Allows (r.front hi) reg ctx.scope) (hr : r.Faces (rd.view reg) hi) :
    rd.Gives (forInit below ctx r h) reg fun s reg₁ => rd.Leads hi rd.start reg₁ ∧ ctx.Stmt rd s reg₁ := by
  unfold forInit
  have plain : rd.Gives (do
      let read ← effect below ctx r h
      read.2.finish
      return .expr read.1) reg fun s reg₁ => rd.Leads hi rd.start reg₁ ∧ ctx.Stmt rd s reg₁ := by
    refine .bind (effect_gives hbelow hready hr) ?_
    rintro read reg₁ h₁ ⟨hrest, he⟩
    refine .lift (P := fun _ => True) (fun _ _ => trivial) fun _ _ => ?_
    exact .pure ⟨hrest.done, rfl,
      .intro (hready.mono h₁) .refl trivial (List.forall_mem_singleton.mpr he) trivial trivial⟩
  split
  · rename_i t r₁ hnext
    split
    · rename_i hk
      refine .bind (variableDecl_gives hbelow hready (hallows.mono (r₁.front_le hi)) (hr.next? hnext).2 hk
        (Declares.before_next? hk hr hnext)) ?_
      rintro ⟨decl, rest⟩ reg₁ h₁ ⟨hrest, hdecl⟩
      refine .lift (P := fun _ => True) (fun _ _ => trivial) fun _ _ => ?_
      exact .pure ⟨hrest.done, rfl, hdecl⟩
    · exact plain
  · exact plain

/-- The parts of the header of a counting loop. -/
def Context.Header (rd : Reading) (ctx : Context)
    (parts : Option OnePass.Stmt × Option OnePass.Expr × Option OnePass.Expr) (reg : Registry) : Prop :=
  (∀ s ∈ parts.1, ctx.Stmt rd s reg) ∧ (∀ e ∈ parts.2.1, ctx.Expr rd e reg) ∧
    ∀ e ∈ parts.2.2, ctx.Expr rd e reg

/-- A part that may be left out: what is read of it ends at `mid`. -/
theorem part_gives {α β : Type} {o : Option α} {f : α → Parse β} {P : β → Registry → Prop} {mid : Nat}
    (hmid : rd.Leads mid rd.start reg)
    (hf : ∀ a ∈ o, rd.Gives (f a) reg fun b reg₁ => rd.Leads mid rd.start reg₁ ∧ P b reg₁) :
    rd.Gives (o.mapM f) reg fun out reg₁ => rd.Leads mid rd.start reg₁ ∧ ∀ b ∈ out, P b reg₁ := by
  cases o with
  | none => exact .pure ⟨hmid, by simp⟩
  | some a =>
      refine .map ((hf a rfl).imp fun _ _ _ ⟨hdone, hb⟩ => ⟨hdone, ?_⟩)
      exact fun b' hb' => Option.some.inj hb' ▸ hb

theorem forHeader_gives (hbelow : below.Sound) (hready : rd.Ready reg ctx.scope)
    (hfresh : ∀ p reg, rd.Allows p reg ctx.scope) (hr : r.Faces (rd.view reg) hi) :
    rd.Gives (forHeader below ctx r h) reg fun parts reg₁ =>
      rd.Leads hi rd.start reg₁ ∧ ctx.Header rd parts reg₁ := by
  unfold forHeader
  refine .lift (fun _ => hr.divide) fun ⟨first, r₁⟩ ⟨mid, hmid, hfirst, hresumes⟩ => ?_
  refine .bind (part_gives hmid fun l hl => forInit_gives hbelow hready (hfresh _ _) (hfirst l hl)) ?_
  intro init reg₁ h₁ ⟨hdone, hinit⟩
  have hready₁ := hready.mono h₁
  have hr₁ : r₁.Faces (rd.view reg₁) hi := hresumes rfl hdone
  refine .lift (fun _ => r₁.divide_faces hr₁) fun ⟨second, r₂⟩ ⟨mid₁, hmid₁, hsecond, hresumes₁⟩ => ?_
  refine .bind (part_gives hmid₁ fun l hl => condition_gives hbelow hready₁ (hsecond l hl)) ?_
  intro test reg₂ h₂ ⟨hdone₁, htest⟩
  have hr₂ : r₂.Faces (rd.view reg₂) hi := hresumes₁ rfl hdone₁
  dsimp only
  split
  · exact .pure ⟨hr₂.done, fun s hs => (hinit s hs).mono h₂, htest, by simp⟩
  · refine .bind (effect_gives hbelow (hready₁.mono h₂) hr₂) fun ⟨step, rest⟩ reg₃ h₃ ⟨hrest, hstep⟩ => ?_
    refine .lift (P := fun _ => True) (fun _ _ => trivial) fun _ _ => ?_
    exact .pure ⟨hrest.done, fun s hs => (hinit s hs).mono (h₂.trans h₃), fun e he => (htest e he).mono h₃,
      fun e he => Option.some.inj he ▸ hstep⟩

theorem forStmt_gives (hbelow : below.Sound) (hready : rd.Ready reg ctx.scope)
    (hr : r.Faces (rd.view reg) hi) : rd.Gives (forStmt below ctx r h) reg (rd.Reads hi (ctx.Stmt rd)) := by
  unfold forStmt
  refine .lift (fun _ => hr.takeOr) fun ⟨keyword, r₁⟩ ⟨_, _, hr₁⟩ => ?_
  refine .lift (fun _ => id) fun ⟨inner, r₂⟩ hcarved => ?_
  refine .openScope hready (.inl rfl) hr₁ fun scope reg₁ h₁ hscope hfresh hr₁ => ?_
  obtain ⟨mid, hinner, _, hresumes⟩ := r₁.carveParens_faces hr₁ hcarved
  refine .bind (forHeader_gives hbelow hscope (fun _ _ => hfresh.allows) hinner) ?_
  intro ⟨init, test, step⟩ reg₂ h₂ ⟨hdone, hinit, htest, hstep⟩
  have hscope₂ := hscope.mono h₂
  have hr₂ : r₂.Faces (rd.view reg₂) hi := hresumes rfl hdone
  refine .bind (.read (freshBlock_gives { ctx with scope, inLoop := true } hbelow hscope₂ hr₂)) ?_
  rintro ⟨b, r₃⟩ reg₃ h₃ ⟨hr₃, hbody, hb⟩
  refine .pure ⟨hr₃, rfl, .intro (hready.mono (h₁.trans (h₂.trans h₃))) .refl trivial ?_
    ⟨fun s hs => (hinit s hs).1, (hfresh.mono (h₂.trans h₃)).1, hbody⟩ trivial⟩
  intro child hc
  simp only [Node.children, List.mem_append, List.mem_map, List.mem_singleton, Option.mem_toList] at hc
  rcases hc with ((⟨s, hs, rfl⟩ | ⟨e, he, rfl⟩) | ⟨e, he, rfl⟩) | rfl
  · exact (hinit s hs).2.mono h₃
  · exact (htest e he).mono h₃
  · exact (hstep e he).mono h₃
  · exact hb

/-! ### Transfers of control -/

theorem returnValue_gives {l : Left r} (hbelow : below.Sound) (hready : rd.Ready reg ctx.scope)
    (hl : l.Faces (rd.view reg) hi) :
    rd.Gives (returnValue below ctx l h) reg
      (rd.Reads hi fun value reg => ∀ e ∈ value, ctx.Expr rd e reg) := by
  unfold returnValue
  split
  · exact .pure ⟨hl, by simp⟩
  · refine .bind (.read (hbelow.expression ctx hready hl)) fun ⟨e, rest⟩ reg₁ h₁ ⟨hrest, he⟩ => ?_
    exact .pure ⟨hrest, fun e' he' => Option.some.inj he' ▸ he⟩

theorem returnStmt_gives (hbelow : below.Sound) (hready : rd.Ready reg ctx.scope)
    (hr : r.Faces (rd.view reg) hi) : rd.Gives (returnStmt below ctx r h) reg (rd.Reads hi (ctx.Stmt rd)) := by
  unfold returnStmt
  refine .lift (fun _ => hr.takeOr) fun ⟨keyword, r₁⟩ ⟨_, _, hr₁⟩ => ?_
  dsimp only
  rw [routine_eq, pure_bind]
  split
  · exact .throw
  · rename_i routine hroutine
    refine .bind (returnValue_gives hbelow hready hr₁) fun ⟨value, r₂⟩ reg₁ h₁ ⟨hr₂, hvalue⟩ => ?_
    refine .lift (fun _ => r₂.take_took hr₂) fun ⟨_, r₃⟩ ⟨_, _, hr₃⟩ => ?_
    refine .check fun _ hcheck => ?_
    refine .pure ⟨hr₃, rfl, .intro (hready.mono h₁) .refl ⟨routine, ctx.source, hroutine, hcheck⟩ ?_
      (Option.isSome_iff_exists.mpr ⟨routine, hroutine⟩) trivial⟩
    intro child hc
    obtain ⟨e, he, rfl⟩ := List.mem_map.mp hc
    exact hvalue e (Option.mem_toList.mp he)

theorem transfer_gives {kind : Token.Kind} {make : Span → Stmt} (hr : r.Faces (rd.view reg) hi)
    (hmake : ∀ span, ctx.inLoop = true → ctx.Stmt rd (make span) reg) :
    rd.Gives (transfer ctx kind make r) reg (rd.Reads hi (ctx.Stmt rd)) := by
  unfold transfer
  refine .lift (fun _ => hr.takeOr) fun ⟨keyword, r₁⟩ ⟨_, _, hr₁⟩ => ?_
  refine .lift (fun _ => r₁.take_took hr₁) fun ⟨_, r₂⟩ ⟨_, _, hr₂⟩ => ?_
  dsimp only
  rw [inLoop_eq, pure_bind]
  refine .guard fun hloop => ?_
  exact .pure ⟨hr₂, hmake _ (by simpa using hloop)⟩

/-! ### All statements -/

theorem visibility_faces {V : View} (hr : r.Faces V hi) : (visibility r).2.Faces V hi := by
  unfold visibility
  split
  · rename_i hpublic
    exact (hr.accept? hpublic).2.2
  · rename_i hprivate
    exact (hr.accept? hprivate).2.2
  · exact hr

theorem variableStmt_gives {v : Visibility} {keyword : Token} (hbelow : below.Sound)
    (hready : rd.Ready reg ctx.scope) (hallows : rd.Allows (r.front hi) reg ctx.scope)
    (hr : r.Faces (rd.view reg) hi) (hk : Declares keyword)
    (hbefore : tokenBefore? rd.tokens (r.front hi) = some keyword) :
    rd.Gives (variableStmt below ctx v keyword r h) reg (rd.Reads hi (ctx.Stmt rd)) := by
  unfold variableStmt
  refine .bind (variableDecl_gives hbelow hready hallows hr hk hbefore) fun ⟨decl, r₁⟩ reg₁ h₁ ⟨hr₁, hdecl⟩ => ?_
  refine .lift (fun _ => r₁.take_took hr₁) fun ⟨_, r₂⟩ ⟨_, _, hr₂⟩ => ?_
  exact .pure ⟨hr₂, rfl, hdecl⟩

theorem visibleDecl?_gives (ctx : Context) {v : Visibility} {decl : Parse (Step r Stmt)}
    (hbelow : below.Sound) (hready : rd.Ready reg ctx.scope)
    (hallows : rd.Allows (r.front hi) reg ctx.scope) (hr : r.Faces (rd.view reg) hi)
    (hd : visibleDecl? below ctx v r h = some decl) : rd.Gives decl reg (rd.Reads hi (ctx.Stmt rd)) := by
  unfold visibleDecl? at hd
  split at hd
  · cases hd
  · rename_i t r₁ hnext
    have declared (hk : Declares t) :
        rd.Gives (r₁.read (variableStmt below ctx v t r₁ (r₁.within h))) reg (rd.Reads hi (ctx.Stmt rd)) :=
      .read (variableStmt_gives hbelow hready (hallows.mono (r₁.front_le hi)) (hr.next? hnext).2 hk
        (hk.before_next? hr hnext))
    split at hd
    · exact Option.some.inj hd ▸ functionStmt_gives hbelow hready hr
    · exact Option.some.inj hd ▸ functionStmt_gives hbelow hready hr
    · exact Option.some.inj hd ▸ functionStmt_gives hbelow hready hr
    · exact Option.some.inj hd ▸ structStmt_gives hready hr
    · rename_i hk
      exact Option.some.inj hd ▸ declared (.inl hk)
    · rename_i hk
      exact Option.some.inj hd ▸ declared (.inr hk)
    · cases hd

theorem plainStmt_gives (ctx : Context) (hbelow : below.Sound)
    (hready : rd.Ready reg ctx.scope) (hallows : rd.Allows (r.front hi) reg ctx.scope)
    (hr : r.Faces (rd.view reg) hi) :
    rd.Gives (plainStmt below ctx r h) reg (rd.Reads hi (ctx.Stmt rd)) := by
  unfold plainStmt
  split
  · exact .throw
  · exact importStmt_gives hready hr
  · exact moduleStmt_gives hbelow hready hallows hr
  · exact enumStmt_gives hbelow hready hallows hr
  · exact ifStmt_gives hbelow hready hr
  · exact whileStmt_gives hbelow hready hr
  · exact forStmt_gives hbelow hready hr
  · exact returnStmt_gives hbelow hready hr
  · exact transfer_gives hr fun _ hloop =>
      ⟨rfl, .intro hready .refl trivial (by simp [Node.children]) hloop trivial⟩
  · exact transfer_gives hr fun _ hloop =>
      ⟨rfl, .intro hready .refl trivial (by simp [Node.children]) hloop trivial⟩
  · refine .bind (freshBlock_gives ctx hbelow hready hr) ?_
    rintro ⟨b, rest⟩ reg₁ h₁ ⟨hrest, hinner, hb⟩
    exact .pure ⟨hrest, rfl, .intro (hready.mono h₁) .refl trivial (List.forall_mem_singleton.mpr hb)
      hinner trivial⟩
  · exact exprStmt_gives hbelow hready hr

theorem statement_gives (hbelow : below.Sound) (hready : rd.Ready reg ctx.scope)
    (hallows : rd.Allows (r.front hi) reg ctx.scope) (hr : r.Faces (rd.view reg) hi) :
    rd.Gives (statement below ctx r h) reg (rd.Reads hi (ctx.Stmt rd)) := by
  unfold statement
  refine nested_gives ?_
  have hvisible := visibility_faces hr
  generalize visibility r = visible at hvisible ⊢
  obtain ⟨v, r₁⟩ := visible
  have hallows₁ := hallows.mono (r₁.front_le hi)
  dsimp only
  split
  · rename_i decl hdecl
    exact .readKept (visibleDecl?_gives { ctx with depth := ctx.depth + 1 } hbelow hready hallows₁ hvisible hdecl)
  · refine .guard fun _ => ?_
    exact .readKept (plainStmt_gives { ctx with depth := ctx.depth + 1 } hbelow hready hallows₁ hvisible)

end Grammar
end OnePass
