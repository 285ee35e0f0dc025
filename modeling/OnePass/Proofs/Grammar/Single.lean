import OnePass.Proofs.Formula.RoundTrip
import OnePass.Proofs.Grammar.Unit
import OnePass.Proofs.Token.Rendering

/-!
Files of one statement. A text is cut into tokens of a certain look, the statement is read from these, and it is
all of the unit.
-/

namespace OnePass

open Token (Kind)

/-! ### Texts and tokens -/

namespace Token.Scan

variable {c : Char} {cs : List Char} {gs : List Glyph}

/-- The text is cut into tokens of the given look, wherever it stands. -/
def Lexes (cs : List Char) (gs : List Glyph) : Prop :=
  ∀ source offset, ∃ ts, tokens source 0 offset cs = .ok ts ∧ ts.map Token.glyph = gs

namespace Lexes

theorem nil : Lexes [] [⟨.eof, ""⟩] := fun _ _ => ⟨_, rfl, rfl⟩

theorem blank (hblank : isBlank c = true) (later : Lexes cs gs) : Lexes (c :: cs) gs := by
  intro source offset
  rw [tokens, if_pos hblank]
  exact later source _

theorem comes {kind : Kind} {lexeme run : List Char} (h : Comes kind lexeme run cs) (later : Lexes cs gs) :
    Lexes (run ++ cs) (⟨kind, .ofList lexeme⟩ :: gs) := by
  intro source offset
  obtain ⟨ts, hts, hglyphs⟩ := later source (offset + byteCount run)
  rw [h.tokens, hts]
  exact ⟨_, rfl, by rw [List.map_cons, hglyphs]; rfl⟩

/-- A token that takes the first character and those of `more`. -/
theorem token {kind : Kind} {lexeme : List Char} (more : List Char) (hblank : isBlank c = false)
    (h : Scan.token c (more ++ cs) = .ok ⟨kind, lexeme, more.length⟩) (later : Lexes cs gs) :
    Lexes (c :: (more ++ cs)) (⟨kind, .ofList lexeme⟩ :: gs) :=
  comes ⟨c, more, rfl, hblank, h⟩ later

/-- A file with the text: the tokens that a unit is read from. -/
theorem region (h : Lexes cs (gs ++ [⟨.eof, ""⟩])) (hplain : ∀ g ∈ gs, g.kind ≠ .eof ∧ g.kind ≠ .comment)
    {source : Source} (htext : source.text.toList = cs) :
    ∃ tokens, source.tokens = .ok tokens ∧ (Region.ofTokens source tokens).ahead.map Token.glyph = gs := by
  obtain ⟨ts, hts, hglyphs⟩ := h source 0
  obtain ⟨front, last, rfl, hfront, hlast⟩ := List.map_eq_append_iff.mp hglyphs
  obtain ⟨stop, rfl, hstop⟩ := List.map_eq_singleton_iff.mp hlast
  have plain (t : Token) (ht : t ∈ front) : t.kind ≠ .eof ∧ t.kind ≠ .comment :=
    hplain t.glyph (hfront ▸ List.mem_map_of_mem ht)
  have hkind : stop.kind = .eof := congrArg Glyph.kind hstop
  refine ⟨front ++ [stop], by rw [Source.tokens, htext]; exact hts, ?_⟩
  have kept : (front ++ [stop]).takeWhile (·.kind ≠ .eof) = front := by
    rw [List.takeWhile_append_of_pos (by simpa using fun t ht => (plain t ht).1),
      List.takeWhile_cons_of_neg (by simp [hkind]), List.append_nil]
  have settled : Region.settle front = front := by
    cases front with
    | nil => rfl
    | cons t front =>
        exact List.dropWhile_cons_of_neg (by simp [Token.isComment, (plain t List.mem_cons_self).2])
  rw [Region.ofTokens, kept, settled, hfront]

end Lexes

end Token.Scan

/-! ### The first token -/

section First

variable {r : Region} {k : Kind} {t : Token} {ts : List Token}

namespace Region

theorem accept?_first (hahead : r.ahead = t :: ts) (hk : t.kind = k) :
    ∃ l : Left r, r.accept? k = some (t, l) ∧ l.ahead = settle ts := by
  obtain ⟨l, hnext, hl⟩ := next?_eq_some hahead
  refine ⟨l, ?_, by rw [hl]; rfl⟩
  rw [accept?, hnext, Option.filter_some, beq_iff_eq.mpr hk, if_pos rfl]

theorem accept?_none (hk : ∀ t ∈ r.ahead.head?, t.kind ≠ k) : r.accept? k = none := by
  cases hahead : r.ahead with
  | nil => rw [accept?, next?_eq_none hahead, Option.filter_none]
  | cons t ts =>
      obtain ⟨l, hnext, _⟩ := next?_eq_some hahead
      have other : t.kind ≠ k := hk t (hahead ▸ rfl)
      rw [accept?, hnext, Option.filter_some, beq_eq_false_iff_ne.mpr other, if_neg Bool.false_ne_true]

theorem accept?_other (hahead : r.ahead = t :: ts) (hk : t.kind ≠ k) : r.accept? k = none :=
  accept?_none fun t' ht' => by
    rw [hahead, List.head?_cons, Option.mem_some_iff] at ht'
    exact ht' ▸ hk

theorem takeOr_first {fault : Fault} (hahead : r.ahead = t :: ts) (hk : t.kind = k) :
    ∃ l : Left r, r.takeOr k fault = .ok (t, l) ∧ l.ahead = settle ts := by
  obtain ⟨l, haccept, hl⟩ := accept?_first hahead hk
  exact ⟨l, by rw [takeOr, haccept], hl⟩

end Region

namespace Left

variable {l : Left r}

theorem accept?_first (hahead : l.ahead = t :: ts) (hk : t.kind = k) :
    ∃ l' : Left r, l.accept? k = some (t, l') ∧ l'.ahead = Region.settle ts := by
  obtain ⟨l', haccept, hl'⟩ := Region.accept?_first hahead hk
  exact ⟨l.left l', congrArg l.read haccept, hl'⟩

theorem accept?_other (hahead : l.ahead = t :: ts) (hk : t.kind ≠ k) : l.accept? k = none :=
  congrArg l.read (Region.accept?_other hahead hk)

theorem take_first (hahead : l.ahead = t :: ts) (hk : t.kind = k) :
    ∃ l' : Left r, l.take k = .ok (t, l') ∧ l'.ahead = Region.settle ts := by
  obtain ⟨l', htake, hl'⟩ := Region.takeOr_first hahead hk
  exact ⟨l.left l', congrArg l.read htake, hl'⟩

theorem takeNamed_first (what : String) (hahead : l.ahead = t :: ts) (hk : t.kind = k) :
    ∃ l' : Left r, l.takeNamed k what = .ok (t, l') ∧ l'.ahead = Region.settle ts := by
  obtain ⟨l', htake, hl'⟩ := Region.takeOr_first hahead hk
  exact ⟨l.left l', congrArg l.read htake, hl'⟩

end Left

theorem settle_cons (h : t.kind ≠ .comment) : Region.settle (t :: ts) = t :: ts :=
  List.dropWhile_cons_of_neg (by simp [Token.isComment, h])

end First

/-! ### Units of one statement -/

namespace Grammar

variable {source : Source} {ctx : Context} {reg reg' : Registry} {r : Region} {t : Token} {ts : List Token}

theorem allStatements_nil (hahead : r.ahead = []) :
    (allStatements ctx r : Parse (Rest r (List Stmt))) = pure ([], .whole r) := by
  have hdone : r.hasNext = false := by rw [Region.hasNext, hahead]; rfl
  unfold allStatements statements
  rw [loop_eq]
  simp [hdone]

theorem run_of_ok {α β : Type} {p : Parse α} {f : α → Parse β} {a : α}
    (h : p.run.run reg = (.ok a, reg')) : (p >>= f).run.run reg = (f a).run.run reg' := by
  rw [run_bind, h]

theorem package?_eq_none (hahead : r.ahead = t :: ts) (hpackage : t.kind ≠ .kwPackage) :
    package? r = .ok (none, .whole r) := by
  have hhead : r.head = t := by rw [Region.head, hahead]; rfl
  unfold package?
  simp only [Region.headIs, hhead, beq_eq_false_iff_ne.mpr hpackage, Bool.not_false, if_true]
  rfl

theorem unit_single {s : Stmt} {l : Left r} (hahead : r.ahead = t :: ts) (hpackage : t.kind ≠ .kwPackage)
    (hsemicolon : t.kind ≠ .semicolon)
    (hread : (statementAt { source } r).run.run reg = (.ok (s, l), reg')) (hl : l.ahead = [])
    (hsettle : s.mapCalls (reg'.settleCall source) = .ok s) :
    ∃ p, (unit source r : Parse Program).run.run reg = (.ok p, reg') ∧ p.body.stmts = [s] := by
  have hnext : r.hasNext = true := by rw [Region.hasNext, hahead]; rfl
  have hnone : r.accept? .semicolon = none := Region.accept?_other hahead hsemicolon
  have all : (allStatements { source } r : Parse (Rest r (List Stmt))).run.run reg =
      (.ok ([s], (l.leftOfKept (.whole l)).kept), reg') := by
    rw [allStatements_eq _ _ hnext hnone, run_of_ok hread]
    dsimp only
    rw [allStatements_nil hl]
    rfl
  let b : Block := ⟨[s], Registry.global, l.spanFrom r.head.span⟩
  have hb : settle reg' source b = .ok b := by
    simp only [settle, b, Block.mapCalls, Stmt.mapCallsList, hsettle]
    rfl
  refine ⟨{ path := source.path, package := none, body := b }, ?_, rfl⟩
  unfold unit
  rw [package?_eq_none hahead hpackage, lift_ok, pure_bind]
  refine (run_of_ok all).trans ?_
  change (liftM (settle reg' source b) >>= fun b => pure _ : Parse Program).run.run reg' = _
  rw [hb]
  rfl

/-- A unit fails as its first statement does. -/
theorem unit_throw {d : Diagnostic} (hahead : r.ahead = t :: ts) (hpackage : t.kind ≠ .kwPackage)
    (hsemicolon : t.kind ≠ .semicolon) (hread : statementAt { source } r = throw d) :
    (unit source r : Parse Program) = throw d := by
  have hnext : r.hasNext = true := by rw [Region.hasNext, hahead]; rfl
  have hnone : r.accept? .semicolon = none := Region.accept?_other hahead hsemicolon
  unfold unit
  rw [package?_eq_none hahead hpackage, lift_ok, pure_bind]
  change (allStatements { source } r >>= _ : Parse Program) = _
  rw [allStatements_eq _ _ hnext hnone, hread]
  rfl

theorem check_run {α : Type} {test : Typing.Setting → Except Diagnostic α} {a : α}
    (h : test ⟨reg, ctx.scope, ctx.source⟩ = .ok a) :
    (ctx.check test : Parse α).run.run reg = (.ok a, reg) := by
  change (liftM (test ⟨reg, ctx.scope, ctx.source⟩) : Parse α).run.run reg = _
  rw [h]
  rfl

theorem map_run {α β : Type} {p : Parse α} {f : α → β} {a : α} (h : p.run.run reg = (.ok a, reg')) :
    (f <$> p).run.run reg = (.ok (f a), reg') := by
  rw [map_eq_pure_bind, run_of_ok h]
  rfl

theorem get_run : (get : Parse Registry).run.run reg = (.ok reg, reg) := rfl

theorem enter_run {span : Span} {define : Registry → Except Fault Unit × Registry} (h : define reg = (.ok (), reg')) :
    (ctx.enter span define : Parse Unit).run.run reg = (.ok (), reg') := by
  rw [run_enter, h]
  rfl

theorem read_whole {α : Type} (p : Parse (Step r α)) : (Kept.whole r).read p = p := id_map p

/-- A statement with no word in front that says who sees it. -/
theorem statementAt_eq (hdepth : ctx.depth < maxDepth) (hahead : r.ahead = t :: ts)
    (hpublic : t.kind ≠ .kwPublic) (hprivate : t.kind ≠ .kwPrivate) :
    statementAt ctx r =
      (visibleDecl? (below r.size) { ctx with depth := ctx.depth + 1 } .inherited r r.size_le).getD
        (plainStmt (below r.size) { ctx with depth := ctx.depth + 1 } r r.size_le) := by
  have visible : visibility r = (.inherited, .whole r) := by
    rw [visibility, Region.accept?_other hahead hpublic, Region.accept?_other hahead hprivate]
  change statement (below r.size) ctx r r.size_le = _
  unfold statement
  rw [nested_eq hdepth, visible]
  dsimp only
  split
  · rename_i decl hdecl
    have found : visibleDecl? (below r.size) { ctx with depth := ctx.depth + 1 } .inherited r r.size_le = some decl :=
      hdecl
    rw [found]
    exact read_whole decl
  · rename_i hdecl
    have found : visibleDecl? (below r.size) { ctx with depth := ctx.depth + 1 } .inherited r r.size_le = none :=
      hdecl
    rw [found, Option.getD_none, if_neg (not_not_intro rfl)]
    exact read_whole _

/-- A token that neither begins nor ends a unit. -/
def Inside (g : Glyph) : Prop :=
  g.kind ≠ .eof ∧ g.kind ≠ .comment ∧ g.kind ≠ .kwPackage ∧ g.kind ≠ .semicolon

instance (g : Glyph) : Decidable (Inside g) := inferInstanceAs (Decidable (_ ∧ _))

/-- Tokens of the given look, and a semicolon behind them, are read as a statement that satisfies `Q` and has no
calls to settle. -/
def Stands (gs : List Glyph) (Q : Stmt → Prop) : Prop :=
  ∀ (source : Source) (r : Region) (ts : List Token) (semicolon : Token), r.ahead = ts ++ [semicolon] →
    ts.map Token.glyph = gs → semicolon.kind = .semicolon →
    ∃ (s : Stmt) (l : Left r) (reg : Registry),
      (statementAt { source } r).run.run .empty = (.ok (s, l), reg) ∧ l.ahead = [] ∧
      s.mapCalls (reg.settleCall source) = .ok s ∧ Q s

/-- A file with one statement. -/
theorem Stands.read {cs : List Char} {gs : List Glyph} {Q : Stmt → Prop} (h : Stands gs Q)
    (lexed : Token.Scan.Lexes cs (gs ++ [.mark .semicolon, ⟨.eof, ""⟩])) (some : gs ≠ [])
    (inside : ∀ g ∈ gs, Inside g) :
    ∃ source p reg s, Registry.empty.read source = (.ok p, reg) ∧ p.body.stmts = [s] ∧ Q s := by
  have plain : ∀ g ∈ gs ++ [.mark .semicolon], g.kind ≠ .eof ∧ g.kind ≠ .comment :=
    List.forall_mem_append.mpr ⟨fun g hg => ⟨(inside g hg).1, (inside g hg).2.1⟩,
      List.forall_mem_singleton.mpr (by decide)⟩
  have whole : Token.Scan.Lexes cs ((gs ++ [.mark .semicolon]) ++ [⟨.eof, ""⟩]) := by
    rw [List.append_assoc]
    exact lexed
  let source : Source := ⟨0, "unit.st", .ofList cs⟩
  obtain ⟨tokens, htokens, hglyphs⟩ : ∃ tokens, source.tokens = .ok tokens ∧ _ :=
    whole.region plain String.toList_ofList
  obtain ⟨ts, last, hahead, hts, hlast⟩ := List.map_eq_append_iff.mp hglyphs
  obtain ⟨semicolon, rfl, hsemicolon⟩ := List.map_eq_singleton_iff.mp hlast
  obtain ⟨s, l, reg, hread, hl, hsettle, hs⟩ := h source _ ts semicolon hahead hts (congrArg Glyph.kind hsemicolon)
  obtain ⟨g, gs, rfl⟩ := List.exists_cons_of_ne_nil some
  obtain ⟨t, ts, rfl, ht, _⟩ := List.map_eq_cons_iff.mp hts
  obtain ⟨_, _, hpackage, hother⟩ : Inside t.glyph := ht ▸ inside g List.mem_cons_self
  obtain ⟨p, hunit, hstmts⟩ := unit_single hahead hpackage hother hread hl hsettle
  refine ⟨source, p, reg, s, ?_, hstmts, hs⟩
  rw [Registry.read, htokens]
  exact hunit

/-- A number that begins a statement begins an expression. -/
theorem statementAt_expr (ctx : Context) {e : Expr} {l : Left r} {type : Ty} {semicolon : Token}
    (hahead : r.ahead = t :: ts) (hkind : t.kind = .integer) (hdepth : ctx.depth < maxDepth)
    (hread : (expression (below r.size) { ctx with depth := ctx.depth + 1 } r r.size_le : Parse _) = pure (e, l))
    (hplain : ∀ c, e ≠ .call c) (hinfer : Typing.infer reg ctx.scope e = .ok type) (hl : l.ahead = [semicolon])
    (hsemicolon : semicolon.kind = .semicolon) :
    ∃ l' : Left r, (statementAt ctx r).run.run reg = (.ok (.expr e, l'), reg) ∧ l'.ahead = [] := by
  obtain ⟨l₁, hnext, _⟩ := Region.next?_eq_some hahead
  obtain ⟨l', htake, hl'⟩ := l.take_first hl hsemicolon
  refine ⟨l', ?_, hl'⟩
  have hhead : r.head.kind = .integer := by rw [Region.head, hahead]; exact hkind
  have undeclared :
      visibleDecl? (m := Parse) (below r.size) { ctx with depth := ctx.depth + 1 } .inherited r r.size_le = none := by
    unfold visibleDecl?
    simp only [hnext, hkind]
  have checked :
      (Context.check { ctx with depth := ctx.depth + 1 } (·.infer e) : Parse Ty).run.run reg = (.ok type, reg) :=
    check_run (Typing.locate_eq_ok.mpr hinfer)
  rw [statementAt_eq hdepth hahead (by rw [hkind]; decide) (by rw [hkind]; decide), undeclared, Option.getD_none]
  unfold plainStmt exprStmt effect
  simp only [hhead, hread, pure_bind, bind_assoc]
  rw [run_of_ok checked, htake]
  rfl

/-- A statement that begins with the keyword of a variable. -/
theorem statementAt_variable {ctx : Context} (hdepth : ctx.depth < maxDepth) (hahead : r.ahead = t :: ts)
    (hkeyword : t.kind ∈ [Kind.kwLet, .kwConst]) :
    ∃ l : Left r, l.ahead = Region.settle ts ∧ statementAt ctx r =
      l.read (variableStmt (below r.size) { ctx with depth := ctx.depth + 1 } .inherited t l.toRegion
        (l.within r.size_le)) := by
  obtain ⟨l, hnext, hl⟩ := Region.next?_eq_some hahead
  refine ⟨l, congrArg Region.ahead hl, ?_⟩
  have declared :
      visibleDecl? (m := Parse) (below r.size) { ctx with depth := ctx.depth + 1 } .inherited r r.size_le =
      some (l.read (variableStmt (below r.size) { ctx with depth := ctx.depth + 1 } .inherited t l.toRegion
        (l.within r.size_le))) := by
    unfold visibleDecl?
    simp only [List.mem_cons, List.not_mem_nil, or_false] at hkeyword
    rcases hkeyword with hkeyword | hkeyword <;> simp only [hnext, hkeyword]
  have visible : ∀ k ∈ [Kind.kwLet, .kwConst], k ≠ .kwPublic ∧ k ≠ .kwPrivate := by decide
  rw [statementAt_eq hdepth hahead (visible _ hkeyword).1 (visible _ hkeyword).2, declared, Option.getD_some]

end Grammar

end OnePass
