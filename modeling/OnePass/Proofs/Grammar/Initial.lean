import OnePass.Proofs.Grammar.Single

/-!
Variables with an initial value. A literal that no operator follows is all of an expression, and a literal that is
refused is what the expression fails with. A declaration that gives no type has the one that its initial value has,
and it fails as that value does.
-/

namespace OnePass

open Token (Kind)

namespace Grammar

/-! ### Expressions that begin with a literal -/

variable {n : Nat} {below : Below Parse n} {ctx : Context} {r : Region} {h : r.size ≤ n} {t : Token} {rest : List Token}
  {d : Diagnostic}

/-- A literal that no operator follows is all of an expression. -/
theorem expressionAt_literal {value : Literal} (hdepth : ctx.depth < maxDepth) (hahead : r.ahead = t :: rest)
    (hkind : t.kind.isLiteral = true) (hvalue : literal ctx.source t = .ok value) (hends : Formula.Ends rest) :
    ∃ span l, expressionAt ctx r = pure (.literal value span, l) ∧ l.ahead = Region.settle rest := by
  let s : Spelling := .ofToken hkind hvalue
  have reads : Formula.Reads (atTier (Grammar.below r.size) { ctx with depth := ctx.depth + 1 } 0) 0 (.literal s)
      (Formula.literal s).print := (Formula.literal_reads s).loosen (Nat.zero_le 5) (Nat.le_refl 5)
  have hahead : r.ahead = [t] ++ rest := hahead
  obtain ⟨_, l, hread, ⟨span, rfl⟩, hl⟩ := Formula.expression_eq hdepth reads hahead rfl hends
  exact ⟨span, l, hread, hl⟩

theorem chain_throw {op? : Kind → Option BinaryOp} {operand : (r : Region) → r.size ≤ n → Parse (Step r Expr)}
    (hread : operand r h = throw d) : chain op? operand r h = throw d := by
  unfold chain
  rw [hread]
  rfl

/-- An expression fails as the literal that it begins with. -/
theorem expressionAt_throw (hdepth : ctx.depth < maxDepth) (hahead : r.ahead = t :: rest)
    (hkind : t.kind.isLiteral = true) (hvalue : literal ctx.source t = .error d) : expressionAt ctx r = throw d := by
  obtain ⟨l, hnext, _⟩ := Region.next?_eq_some hahead
  let inner : Context := { ctx with depth := ctx.depth + 1 }
  have hprimary : (primary (Grammar.below r.size) inner r r.size_le : Parse _) = throw d := by
    unfold primary
    have hvalue : literal inner.source t = .error d := hvalue
    simp only [hnext, hkind, if_true, hvalue]
    rfl
  have hunary : (unary (Grammar.below r.size) inner r r.size_le : Parse _) = throw d := by
    unfold unary postfixes
    simp only [hnext, Formula.prefixOp?_of_isLiteral hkind, hprimary]
    rfl
  have hpower : (power (Grammar.below r.size) inner r r.size_le : Parse _) = throw d := by
    unfold power
    rw [hunary]
    rfl
  have hlambda : beginsLambda r = false := by
    have hparen : t.kind ≠ .leftParen := by
      intro hk
      rw [hk] at hkind
      cases hkind
    simp [beginsLambda, Region.headIs, Region.head, hahead, hparen]
  rw [expressionAt_eq]
  unfold expression
  rw [nested_eq hdepth, hlambda, if_neg (by decide)]
  unfold assignment logical
  change chain _ _ _ _ >>= _ = _
  rw [chain_throw (chain_throw (chain_throw (chain_throw hpower)))]
  rfl

/-! ### Declarations with an initial value -/

section Declaration

variable {reg : Registry} {keyword name mark : Token} {r₁ r₂ : Left r}

theorem initialValue_eq {l : Left r} (hl : l.ahead = mark :: rest) (hmark : mark.kind = .assign) :
    ∃ l₁ : Left r, l₁.ahead = Region.settle rest ∧
      initialValue (Grammar.below n) ctx l h = (fun s => (some s.1, l₁.left s.2)) <$> expressionAt ctx l₁.toRegion := by
  obtain ⟨l₁, haccept, hl₁⟩ := l.accept?_first hl hmark
  refine ⟨l₁, hl₁, ?_⟩
  unfold initialValue
  simp only [haccept, expression_below_eq, Left.read, map_eq_pure_bind, bind_assoc, pure_bind]

theorem variableType_run {value : Expr} {type : Ty} (mutable : Bool)
    (htype : Typing.infer reg ctx.scope value = .ok type) (hknown : isUninformative type = false) :
    (variableType ctx name mutable none (some value) : Parse Ty).run.run reg = (.ok type.rvalue, reg) := by
  have checked : (ctx.check (·.infer value) : Parse Ty).run.run reg = (.ok type, reg) :=
    check_run (Typing.locate_eq_ok.mpr htype)
  unfold variableType
  refine (run_of_ok checked).trans ?_
  rw [hknown]
  rfl

/-- A variable that is given no type has that of its initial value. -/
theorem variableDecl_initial (v : Visibility) {value : Expr} {type : Ty}
    (hname : r.takeNamed .identifier "variable name" = .ok (name, r₁)) (hcolon : r₁.accept? .colon = none)
    (hvalue : initialValue below ctx r₁ h = pure (some value, r₂)) (htype : Typing.infer reg ctx.scope value = .ok type)
    (hknown : isUninformative type = false) (hnew : ∀ x, ∃ reg', reg.defineVariable ctx.scope x = (.ok (), reg')) :
    ∃ decl reg', (variableDecl below ctx v keyword r h).run.run reg = (.ok (decl, r₂), reg') ∧
      decl.name = name.lexeme ∧ decl.value = some value ∧
      decl.type = type.rvalue.withFlags { mutable := keyword.kind == .kwLet, global := reg.declares ctx.scope } := by
  let flags : Flags := { mutable := keyword.kind == .kwLet, global := reg.declares ctx.scope }
  let internal := if reg.declares ctx.scope = true then reg.qualify ctx.scope name.lexeme else name.lexeme
  let x : Variable := ⟨⟨name.lexeme, internal, name.span⟩, type.rvalue.withFlags flags⟩
  obtain ⟨reg', hreg'⟩ := hnew x
  have entered :
      (ctx.enter name.span fun reg => reg.defineVariable ctx.scope x : Parse Unit).run.run reg = (.ok (), reg') :=
    enter_run hreg'
  refine ⟨⟨name.lexeme, internal, type.rvalue.withFlags flags, some value, flags.mutable, v, ctx.scope,
    r₂.spanFrom keyword.span⟩, reg', ?_, rfl, rfl, rfl⟩
  unfold variableDecl annotation
  rw [hname, lift_ok, pure_bind]
  simp only [hcolon, pure_bind, hvalue]
  rw [run_of_ok (variableType_run flags.mutable htype hknown), run_of_ok get_run]
  exact run_of_ok entered

theorem variableDecl_throw (v : Visibility) (hname : r.takeNamed .identifier "variable name" = .ok (name, r₁))
    (hcolon : r₁.accept? .colon = none) (hvalue : initialValue below ctx r₁ h = throw d) :
    variableDecl below ctx v keyword r h = throw d := by
  unfold variableDecl annotation
  rw [hname, lift_ok, pure_bind]
  simp only [hcolon, pure_bind, hvalue]
  rfl

section Statement

variable (hahead : r.ahead = name :: mark :: rest) (hname : name.kind = .identifier) (hmark : mark.kind = .assign)

include hahead hname hmark

/-- A name with an initial value behind it, up to that value. -/
theorem exists_initialValue :
    ∃ r₁ l₁ : Left r, r.takeNamed .identifier "variable name" = .ok (name, r₁) ∧ r₁.accept? .colon = none ∧
      l₁.ahead = Region.settle rest ∧
      initialValue (Grammar.below n) ctx r₁ h =
        (fun s => (some s.1, l₁.left s.2)) <$> expressionAt ctx l₁.toRegion := by
  obtain ⟨r₁, htake, hr₁⟩ : ∃ r₁ : Left r, r.takeNamed .identifier "variable name" = .ok (name, r₁) ∧
      r₁.ahead = Region.settle (mark :: rest) := Region.takeOr_first hahead hname
  rw [settle_cons (by rw [hmark]; decide)] at hr₁
  have hcolon : r₁.accept? .colon = none := Left.accept?_other hr₁ (by rw [hmark]; decide)
  obtain ⟨l₁, hl₁, hvalue⟩ := initialValue_eq hr₁ hmark
  exact ⟨r₁, l₁, htake, hcolon, hl₁, hvalue⟩

theorem variableStmt_throw (v : Visibility)
    (hread : ∀ q : Region, q.ahead = Region.settle rest → expressionAt ctx q = throw d) :
    (variableStmt (Grammar.below n) ctx v keyword r h : Parse _) = throw d := by
  obtain ⟨r₁, l₁, htake, hcolon, hl₁, hvalue⟩ := exists_initialValue hahead hname hmark
  rw [hread l₁.toRegion hl₁] at hvalue
  unfold variableStmt
  rw [variableDecl_throw v htake hcolon hvalue]
  rfl

theorem variableStmt_initial (v : Visibility) {e : Expr → Prop} {type : Ty} {semicolon : Token}
    (hread : ∀ q : Region, q.ahead = Region.settle rest →
      ∃ value l, expressionAt ctx q = pure (value, l) ∧ l.ahead = [semicolon] ∧ e value)
    (hsemicolon : semicolon.kind = .semicolon)
    (htype : ∀ value, e value → Typing.infer reg ctx.scope value = .ok type) (hknown : isUninformative type = false)
    (hnew : ∀ x, ∃ reg', reg.defineVariable ctx.scope x = (.ok (), reg')) :
    ∃ decl value l reg', (variableStmt (Grammar.below n) ctx v keyword r h : Parse _).run.run reg =
        (.ok (.variable decl, l), reg') ∧ l.ahead = [] ∧ decl.name = name.lexeme ∧ decl.value = some value ∧ e value ∧
      decl.type = type.rvalue.withFlags { mutable := keyword.kind == .kwLet, global := reg.declares ctx.scope } := by
  obtain ⟨r₁, l₁, htake, hcolon, hl₁, hvalue⟩ := exists_initialValue hahead hname hmark
  obtain ⟨value, l₂, hexpr, hl₂, he⟩ := hread l₁.toRegion hl₁
  rw [hexpr, map_pure] at hvalue
  obtain ⟨decl, reg', hdecl, hfields⟩ := variableDecl_initial v htake hcolon hvalue (htype value he) hknown hnew
  obtain ⟨l₃, hend, hl₃⟩ := (l₁.left l₂).take_first hl₂ hsemicolon
  refine ⟨decl, value, l₃, reg', ?_, hl₃, hfields.1, hfields.2.1, he, hfields.2.2⟩
  unfold variableStmt
  rw [run_of_ok hdecl]
  dsimp only
  rw [hend]
  rfl

end Statement

end Declaration

end Grammar
end OnePass
