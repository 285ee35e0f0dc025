import OnePass.Proofs.Grammar.Single
import OnePass.Proofs.Program.Progress

/-!
How deep a program nests. In whatever is accepted, blocks, functions without a name and operators in front of
their operands stand in each other no deeper than the limit. The limit says nothing of powers of powers, nor
of functions in the types of functions: there are files for any number of them.
-/

namespace OnePass

open Token (Kind)

/-! ### Powers of powers -/

/-- How many powers stand in each other, each the exponent of the one before. -/
def Expr.powers : Expr → Nat
  | .binary (.arithmetic .pow) _ exponent _ => exponent.powers + 1
  | _ => 0

namespace Formula

open Grammar

theorem literal_one : Grammar.literal ⟨0, "", ""⟩ ⟨.integer, "1", ⟨0, 1, 0⟩⟩ = .ok (.integer 1 false) := rfl

def one : Spelling := .ofToken rfl literal_one

/-- One to the power of one, and so on. -/
def powers : Nat → Formula
  | 0 => .literal one
  | n + 1 => .binary (.arithmetic .pow) (.literal one) (powers n)

def powersText : Nat → List Char
  | 0 => ['1', ';']
  | n + 1 => '1' :: ' ' :: '*' :: '*' :: ' ' :: powersText n

theorem tier_powers (n : Nat) : 4 ≤ (powers n).tier := by
  cases n with
  | zero => exact Nat.le_add_right 4 2
  | succ n => exact Nat.le_refl 4

theorem print_powers (n : Nat) : (powers (n + 1)).print = one.glyph :: .mark .starStar :: (powers n).print := by
  have exponent : (powers n).enclose 4 (powers n).print = (powers n).print :=
    if_neg (Nat.not_lt_of_le (tier_powers n))
  rw [powers, print, BinaryOp.right, exponent]
  rfl

theorem depth_powers (n : Nat) : (powers n).depth = 0 := by
  induction n with
  | zero => rfl
  | succ n ih =>
      have exponent : (powers n).deepen 4 (powers n).depth = (powers n).depth :=
        if_neg (Nat.not_lt_of_le (tier_powers n))
      rw [powers, depth, BinaryOp.right, exponent, ih]
      rfl

theorem powers_lexes (n : Nat) :
    Token.Scan.Lexes (powersText n) ((powers n).print ++ [.mark .semicolon, ⟨.eof, ""⟩]) := by
  induction n with
  | zero =>
      have semicolon : Token.Scan.Lexes [';'] [.mark .semicolon, ⟨.eof, ""⟩] := .token [] rfl rfl .nil
      exact .token [] rfl rfl semicolon
  | succ n ih =>
      rw [print_powers]
      have operator : Token.Scan.Lexes ('*' :: '*' :: ' ' :: powersText n) _ :=
        .token ['*'] rfl rfl (.blank rfl ih)
      exact .token [] rfl rfl (.blank rfl operator)

section

variable {n : Nat} {e : Expr}

theorem powers_eq (h : (powers n).Is e) : e.powers = n := by
  induction n generalizing e with
  | zero =>
      obtain ⟨span, rfl⟩ := h
      rfl
  | succ n ih =>
      obtain ⟨base, exponent, span, rfl, _, hexponent⟩ := h
      rw [Expr.powers, ih hexponent]

theorem powers_ne_call (h : (powers n).Is e) (c : Call) : e ≠ .call c := by
  cases n with
  | zero =>
      obtain ⟨span, rfl⟩ := h
      exact nofun
  | succ n =>
      obtain ⟨base, exponent, span, rfl, _⟩ := h
      exact nofun

theorem infer_powers (h : (powers n).Is e) (reg : Registry) (scope : ScopeId) :
    Typing.infer reg scope e = .ok (.ofPrimitive .i32) := by
  induction n generalizing e with
  | zero =>
      obtain ⟨span, rfl⟩ := h
      rfl
  | succ n ih =>
      obtain ⟨_, exponent, span, rfl, ⟨_, rfl⟩, hexponent⟩ := h
      rw [Typing.infer, Typing.infer, ih hexponent]
      rfl

theorem mapCalls_powers (h : (powers n).Is e) (g : Call → Except Diagnostic Call) : e.mapCalls g = .ok e := by
  induction n generalizing e with
  | zero =>
      obtain ⟨span, rfl⟩ := h
      rfl
  | succ n ih =>
      obtain ⟨_, exponent, span, rfl, ⟨_, rfl⟩, hexponent⟩ := h
      rw [Expr.mapCalls, Expr.mapCalls, ih hexponent]
      rfl

end

theorem powers_plain (n : Nat) : ∀ g ∈ (powers n).print, Grammar.Inside g := by
  induction n with
  | zero => exact List.forall_mem_singleton.mpr (by decide)
  | succ n ih =>
      rw [print_powers]
      exact List.forall_mem_cons.mpr ⟨by decide, List.forall_mem_cons.mpr ⟨by decide, ih⟩⟩

/-- The statement is read from a region that it fills. -/
theorem powers_stands (n : Nat) : Stands (powers n).print fun s => ∃ e, s = .expr e ∧ e.powers = n := by
  intro source r ts semicolon hahead hts hkind
  have settled : Region.settle [semicolon] = [semicolon] := settle_cons (by rw [hkind]; decide)
  have hends : Ends [semicolon] := by
    intro t ht
    rw [settled, List.head?_cons, Option.mem_some_iff] at ht
    rw [← ht, hkind]
    exact ⟨rfl, rfl⟩
  have reads : Reads (atTier (below r.size) { source, depth := 2 } 0) 0 (powers n) (powers n).print := by
    refine (powers n).core.reads_enclose (below_tied _) (Nat.zero_le _) ?_
    rw [deepen, if_neg (Nat.not_lt_zero _), depth_powers]
    exact (by decide : 2 ≤ maxDepth)
  obtain ⟨e, l, hread, he, hl⟩ : ∃ e l, expression (below r.size) { source, depth := 1 } r r.size_le = pure (e, l) ∧
      (powers n).Is e ∧ l.ahead = Region.settle [semicolon] :=
    expression_eq (show 1 < maxDepth by decide) reads hahead hts hends
  obtain ⟨gs, hprint⟩ : ∃ gs, (powers n).print = one.glyph :: gs := by
    cases n with
    | zero => exact ⟨[], rfl⟩
    | succ n => exact ⟨_, print_powers n⟩
  obtain ⟨t, ts, rfl, ht, _⟩ := List.map_eq_cons_iff.mp (hts.trans hprint)
  obtain ⟨l', hstmt, hl'⟩ := statementAt_expr { source } hahead (congrArg Glyph.kind ht)
    (show 0 < maxDepth by decide) hread (powers_ne_call he) (infer_powers he .empty _) (hl.trans settled) hkind
  refine ⟨.expr e, l', .empty, hstmt, hl', ?_, e, rfl, powers_eq he⟩
  rw [Stmt.mapCalls, mapCalls_powers he]
  rfl

/-- A file with any number of powers in each other. -/
theorem read_powers (n : Nat) :
    ∃ source p reg e, Registry.empty.read source = (.ok p, reg) ∧ p.body.stmts = [.expr e] ∧ e.powers = n := by
  obtain ⟨source, p, reg, _, hread, hstmts, e, rfl, he⟩ :=
    (powers_stands n).read (powers_lexes n) (by cases n <;> exact nofun) (powers_plain n)
  exact ⟨source, p, reg, e, hread, hstmts, he⟩

end Formula

/-! ### Functions in the types of functions -/

/-- A type of functions with one parameter, any of which may be of such a type again. -/
inductive Signature where
  | plain
  | arrow (param result : Signature)

namespace Signature

/-- The type is of that signature, whatever its flags. -/
def Is : Signature → Ty → Prop
  | plain, t => ∃ width flags, t = .primitive .i32 width flags
  | arrow p q, t => ∃ param result flags, t = .function [param] result flags ∧ p.Is param ∧ q.Is result

def print : Signature → List Glyph
  | plain => [⟨.primitive, "i32"⟩]
  | arrow p q => .mark .leftParen :: (p.print ++ .mark .rightParen :: .mark .arrow :: q.print)

def text : Signature → List Char
  | plain => ['i', '3', '2', ' ']
  | arrow p q => '(' :: (p.text ++ ')' :: ' ' :: '-' :: '>' :: ' ' :: q.text)

theorem lexes (sig : Signature) {cs : List Char} {gs : List Glyph} (later : Token.Scan.Lexes cs gs) :
    Token.Scan.Lexes (sig.text ++ cs) (sig.print ++ gs) := by
  induction sig generalizing cs gs with
  | plain => exact .token ['3', '2'] rfl rfl (.blank rfl later)
  | arrow p q ihp ihq =>
      rw [text, print, List.cons_append, List.cons_append, List.append_assoc, List.append_assoc]
      refine .token [] rfl rfl (ihp ?_)
      refine .token [] rfl rfl (.blank rfl ?_)
      exact .token ['>'] rfl rfl (.blank rfl (ihq later))

theorem inside (sig : Signature) : ∀ g ∈ sig.print, Grammar.Inside g := by
  induction sig with
  | plain => exact List.forall_mem_singleton.mpr (by decide)
  | arrow p q ihp ihq =>
      refine List.forall_mem_cons.mpr ⟨by decide, List.forall_mem_append.mpr ⟨ihp, ?_⟩⟩
      exact List.forall_mem_cons.mpr ⟨by decide, List.forall_mem_cons.mpr ⟨by decide, ihq⟩⟩

/-- Flags do not count. -/
theorem Is.setFlags {sig : Signature} {t : Ty} (h : sig.Is t) (flags : Flags) : sig.Is (t.setFlags flags) := by
  cases sig with
  | plain =>
      obtain ⟨width, _, rfl⟩ := h
      exact ⟨width, flags, rfl⟩
  | arrow p q =>
      obtain ⟨param, result, _, rfl, hparam, hresult⟩ := h
      exact ⟨param, result, flags, rfl, hparam, hresult⟩

/-- A signature begins with a token that is neither a comment nor a mark in front of a type. -/
theorem print_first (sig : Signature) :
    ∃ g gs, sig.print = g :: gs ∧ (g.kind = .primitive ∨ g.kind = .leftParen) := by
  cases sig with
  | plain => exact ⟨_, _, rfl, .inl rfl⟩
  | arrow p q => exact ⟨_, _, rfl, .inr rfl⟩

/-- Nothing is skipped in front of a signature. -/
theorem settle_print {sig : Signature} {ts rest : List Token} (hts : ts.map Token.glyph = sig.print) :
    Region.settle (ts ++ rest) = ts ++ rest := by
  obtain ⟨g, gs, hprint, hkind⟩ := sig.print_first
  obtain ⟨t, ts, rfl, ht, _⟩ := List.map_eq_cons_iff.mp (hts.trans hprint)
  have hk : t.kind = g.kind := congrArg Glyph.kind ht
  refine settle_cons ?_
  rcases hkind with h | h <;> rw [hk, h] <;> decide

open Formula in
theorem balanced (sig : Signature) {ts : List Token} (hts : ts.map Token.glyph = sig.print) : Balanced ts := by
  induction sig generalizing ts with
  | plain =>
      obtain ⟨t, rfl, ht⟩ := List.map_eq_singleton_iff.mp hts
      have hkind : t.kind = .primitive := congrArg Glyph.kind ht
      exact .single (hkind ▸ by decide) (hkind ▸ by decide)
  | arrow p q ihp ihq =>
      obtain ⟨o, ts, rfl, ho, hts⟩ := List.map_eq_cons_iff.mp hts
      obtain ⟨inner, ts, rfl, hinner, hts⟩ := List.map_eq_append_iff.mp hts
      obtain ⟨c, ts, rfl, hc, hts⟩ := List.map_eq_cons_iff.mp hts
      obtain ⟨a, ts, rfl, ha, hts⟩ := List.map_eq_cons_iff.mp hts
      have parens : Balanced (o :: (inner ++ [c])) :=
        .parens (congrArg Glyph.kind ho) (ihp hinner) (congrArg Glyph.kind hc)
      have hkind : a.kind = .arrow := congrArg Glyph.kind ha
      have arrow : Balanced [a] := .single (hkind ▸ by decide) (hkind ▸ by decide)
      have whole := parens.append (arrow.append (ihq hts))
      rwa [List.cons_append, List.append_assoc] at whole

end Signature

namespace Grammar

variable {s : TypeSetting} {r : Region} {t : Token} {ts rest : List Token} {what : String}

/-- Nothing behind the tokens goes on with a type. -/
def TypeEnds (rest : List Token) : Prop :=
  ∀ t ∈ (Region.settle rest).head?, t.kind ≠ .leftBracket ∧ t.kind ≠ .question

/-- A type without marks is its base. -/
theorem typeFrom_plain {inner : TypesBelow r} {base : Ty} {l : Left r} (hahead : r.ahead = t :: ts)
    (hkind : t.kind = .primitive ∨ t.kind = .leftParen) (hbase : baseType s r inner what = .ok (base, l))
    (hl : l.ahead = Region.settle rest) (hends : TypeEnds rest) :
    typeFrom s r inner what = .ok (base.withFlags .plain, l) := by
  have unmarked : typeMark r = (.plain, .whole r) := by
    rw [typeMark, Region.accept?_other hahead (by rcases hkind with h | h <;> rw [h] <;> decide),
      Region.accept?_other hahead (by rcases hkind with h | h <;> rw [h] <;> decide)]
  have hbracket : l.toRegion.accept? .leftBracket = none :=
    Region.accept?_none fun t ht => (hends t (hl ▸ ht)).1
  have hquestion : l.toRegion.accept? .question = none :=
    Region.accept?_none fun t ht => (hends t (hl ▸ ht)).2
  have single : arraySuffix s base l.toRegion = pure none := by rw [arraySuffix, hbracket]
  have certain : l.optional .question = (none, l) := by rw [Left.optional, Left.accept?, hquestion]; rfl
  unfold typeFrom
  rw [unmarked]
  refine bind_eq_ok.mpr ⟨(base, l), (id_map _).trans hbase, ?_⟩
  refine bind_eq_ok.mpr ⟨(base, l), Left.loop_of_none single, ?_⟩
  dsimp only
  rw [certain]
  rfl

/-- A list of one item. -/
theorem items_single {α : Type} {item : (r' : Region) → r'.size ≤ r.size → List α → Except Diagnostic (Step r' α)}
    {a : α} {l : Left r} (hnext : r.hasNext = true) (hitem : item r r.size_le [] = .ok (a, l)) (hl : l.ahead = []) :
    items r item = .ok [a] := by
  have hdone : l.hasNext = false := by rw [Region.hasNext, hl]; rfl
  have nothing : l.toRegion.accept? .comma = none := by
    refine Region.accept?_none fun t ht => ?_
    rw [hl] at ht
    cases ht
  have hcomma : l.accept? .comma = none := by
    rw [Left.accept?, nothing]
    rfl
  unfold items
  refine bind_eq_ok.mpr ⟨([a], (l.leftOfKept (.whole l)).kept), ?_, rfl⟩
  rw [loop_eq]
  refine bind_eq_ok.mpr ⟨some ([a], l), ?_, bind_eq_ok.mpr ⟨([a], .whole l), ?_, rfl⟩⟩
  · rw [hnext, Bool.not_true, if_neg Bool.false_ne_true]
    refine bind_eq_ok.mpr ⟨(a, l), hitem, ?_⟩
    dsimp only
    rw [hcomma]
    dsimp only
    rw [hdone, if_neg Bool.false_ne_true]
    rfl
  · rw [loop_eq]
    refine bind_eq_ok.mpr ⟨none, ?_, rfl⟩
    dsimp only
    rw [hdone, Bool.not_false, if_pos rfl]
    rfl

end Grammar

namespace Signature

open Grammar

theorem reads_base {sig : Signature} {s : TypeSetting} {r : Region} {t : Token} {ts rest : List Token}
    {what : String} {l : Left r} (base : Ty) (hahead : r.ahead = t :: ts)
    (hkind : t.kind = .primitive ∨ t.kind = .leftParen)
    (hbase : baseType s r (fun r' _ => Grammar.type s r') what = .ok (base, l)) (his : sig.Is base)
    (hl : l.ahead = Region.settle rest) (hends : TypeEnds rest) :
    ∃ t l, Grammar.type s r what = .ok (t, l) ∧ sig.Is t ∧ l.ahead = Region.settle rest :=
  ⟨base.withFlags .plain, l,
    (productions_solves.type s r what).trans (typeFrom_plain hahead hkind hbase hl hends), his.setFlags _, hl⟩

/-- A signature is read as a type of that signature. -/
theorem type_reads (sig : Signature) (s : TypeSetting) {r : Region} {ts rest : List Token} (what : String)
    (hahead : r.ahead = ts ++ rest) (hts : ts.map Token.glyph = sig.print) (hends : TypeEnds rest) :
    ∃ t l, Grammar.type s r what = .ok (t, l) ∧ sig.Is t ∧ l.ahead = Region.settle rest := by
  induction sig generalizing r ts rest what with
  | plain =>
      obtain ⟨t, rfl, ht⟩ := List.map_eq_singleton_iff.mp hts
      have hkind : t.kind = .primitive := congrArg Glyph.kind ht
      have hlexeme : t.lexeme = "i32" := congrArg Glyph.lexeme ht
      have hhead : r.head.kind = .primitive := by rw [Region.head, hahead]; exact hkind
      obtain ⟨l, htake, hl⟩ : ∃ l : Left r, r.take .primitive = .ok (t, l) ∧ l.ahead = Region.settle rest :=
        Region.takeOr_first hahead hkind
      refine reads_base (.ofPrimitive .i32) hahead (.inl hkind) ?_ ⟨_, _, rfl⟩ hl hends
      rw [baseType, hhead]
      refine bind_eq_ok.mpr ⟨(t, l), htake, ?_⟩
      dsimp only
      rw [hlexeme]
      rfl
  | arrow p q ihp ihq =>
      obtain ⟨o, ts, rfl, ho, hts⟩ := List.map_eq_cons_iff.mp hts
      obtain ⟨inner, ts, rfl, hinner, hts⟩ := List.map_eq_append_iff.mp hts
      obtain ⟨c, ts, rfl, hc, hts⟩ := List.map_eq_cons_iff.mp hts
      obtain ⟨a, ts, rfl, ha, hts⟩ := List.map_eq_cons_iff.mp hts
      have hkind : o.kind = .leftParen := congrArg Glyph.kind ho
      have hhead : r.head.kind = .leftParen := by rw [Region.head, hahead]; exact hkind
      have split : r.ahead = o :: (inner ++ c :: (a :: (ts ++ rest))) := by simpa using hahead
      obtain ⟨l, l', hcarve, hl, hl'⟩ := (p.balanced hinner).carveParens split hkind (congrArg Glyph.kind hc)
        (settle_print hinner)
      have hparams : l.ahead = inner ++ [] := by
        rw [hl, ← settle_print hinner, List.append_nil]
      obtain ⟨param, m, hread, hparam, hm⟩ := ihp "parameter type" hparams hinner
        fun t ht => absurd ht (Option.not_mem_none t)
      have hnext : l.hasNext = true := by
        obtain ⟨g, gs, hprint, _⟩ := p.print_first
        obtain ⟨t, ts, rfl, _⟩ := List.map_eq_cons_iff.mp (hinner.trans hprint)
        rw [Region.hasNext, hparams]
        rfl
      have harrow : a.kind = .arrow := congrArg Glyph.kind ha
      have hbehind : l'.ahead = a :: (ts ++ rest) := hl'.trans (settle_cons (by rw [harrow]; decide))
      obtain ⟨l₂, htake, hl₂⟩ := l'.takeNamed_first "'->' in function type" hbehind harrow
      obtain ⟨result, l₃, hread', hresult, hl₃⟩ := ihq "return type after '->'" (hl₂.trans (settle_print hts)) hts hends
      refine reads_base (l := l₂.left l₃) (.function [param] result .plain) hahead (.inr hkind) ?_
        ⟨param, result, _, rfl, hparam, hresult⟩ hl₃ hends
      rw [baseType, hhead]
      refine bind_eq_ok.mpr ⟨(l, l'), hcarve, bind_eq_ok.mpr ⟨[param], items_single hnext hread hm, ?_⟩⟩
      refine bind_eq_ok.mpr ⟨(a, l₂), htake, bind_eq_ok.mpr ⟨(result, l₂.left l₃), ?_, rfl⟩⟩
      exact map_eq_ok.mpr ⟨(result, l₃), hread', rfl⟩

end Signature

theorem Grammar.type_run {ctx : Context} {r : Region} {what : String} {reg : Registry} {out : Step r Ty}
    (h : Grammar.type ⟨reg, ctx.source, ctx.scope, none⟩ r what = .ok out) :
    (ctx.type r what : Parse (Step r Ty)).run.run reg = (.ok out, reg) := by
  unfold Context.type
  rw [declared_eq, pure_bind, run_of_ok get_run, h]
  rfl

/-- A variable without initial value has the type that it is given. -/
theorem Grammar.variableDecl_run {n : Nat} (below : Below Parse n) {ctx : Context} (v : Visibility)
    {keyword name : Token} {r : Region} (h : r.size ≤ n) {r₁ r₂ : Left r} {type : Ty} {span : Span} {reg : Registry}
    (hkeyword : keyword.kind = .kwLet) (hname : r.takeNamed .identifier "variable name" = .ok (name, r₁))
    (hgiven : ( annotation ctx r₁ : Parse _).run.run reg = (.ok (some (type, span), r₂), reg))
    (hvalue : r₂.accept? .assign = none) (hnew : ∀ x, ∃ reg', reg.defineVariable ctx.scope x = (.ok (), reg')) :
    ∃ d reg', (variableDecl below ctx v keyword r h).run.run reg = (.ok (d, r₂), reg') ∧ d.value = none ∧
      ∃ flags, d.type = type.setFlags flags := by
  unfold variableDecl
  rw [hname, lift_ok, pure_bind]
  dsimp only
  rw [run_of_ok hgiven]
  dsimp only
  unfold initialValue
  rw [hvalue]
  simp only [pure_bind, hkeyword, variableType]
  rw [if_neg (by decide), pure_bind]
  let internal := if reg.declares ctx.scope = true then reg.qualify ctx.scope name.lexeme else name.lexeme
  let flags : Flags := { mutable := true, global := reg.declares ctx.scope }
  let x : Variable := ⟨⟨name.lexeme, internal, name.span⟩, type.withFlags flags⟩
  obtain ⟨reg', hreg'⟩ := hnew x
  have entered :
      (ctx.enter name.span fun reg => reg.defineVariable ctx.scope x : Parse Unit).run.run reg = (.ok (), reg') :=
    enter_run hreg'
  refine ⟨⟨name.lexeme, internal, type.withFlags flags, none, true, v, ctx.scope, r₂.spanFrom keyword.span⟩, reg', ?_,
    rfl, _, rfl⟩
  rw [run_of_ok get_run]
  exact run_of_ok entered

namespace Signature

open Grammar

/-- A declaration of a variable of the signature. -/
def declaration (sig : Signature) : List Glyph :=
  ⟨.kwLet, "let"⟩ :: ⟨.identifier, "f"⟩ :: .mark .colon :: sig.print

theorem declaration_lexes (sig : Signature) {cs : List Char} {gs : List Glyph} (later : Token.Scan.Lexes cs gs) :
    Token.Scan.Lexes ('l' :: 'e' :: 't' :: ' ' :: 'f' :: ':' :: ' ' :: (sig.text ++ cs))
      (sig.declaration ++ gs) := by
  have typed : Token.Scan.Lexes (':' :: ' ' :: (sig.text ++ cs)) (.mark .colon :: (sig.print ++ gs)) :=
    .token [] rfl rfl (.blank rfl (sig.lexes later))
  exact .token ['e', 't'] rfl rfl (.blank rfl (.token [] rfl rfl typed))

/-- A semicolon ends a type. -/
theorem typeEnds_semicolon {semicolon : Token} (hkind : semicolon.kind = .semicolon) : TypeEnds [semicolon] := by
  intro t ht
  rw [settle_cons (by rw [hkind]; decide), List.head?_cons, Option.mem_some_iff] at ht
  rw [← ht, hkind]
  decide

section

variable {ctx : Context} {reg : Registry} {r : Region} {name colon semicolon : Token} {ts rest : List Token}

/-- A colon and the type behind it. -/
theorem annotation_reads (sig : Signature) {l : Left r} (hahead : l.ahead = colon :: (ts ++ rest))
    (hcolon : colon.kind = .colon) (hts : ts.map Token.glyph = sig.print) (hends : TypeEnds rest) :
    ∃ type span m, ( annotation ctx l : Parse _).run.run reg = (.ok (some (type, span), m), reg) ∧ sig.Is type ∧
      m.ahead = Region.settle rest := by
  obtain ⟨l₁, haccept, hl₁⟩ := l.accept?_first hahead hcolon
  obtain ⟨type, m, htype, hsig, hm⟩ := sig.type_reads ⟨reg, ctx.source, ctx.scope, none⟩ "type after ':'"
    (hl₁.trans (settle_print hts)) hts hends
  have typed : (ctx.type l₁.toRegion "type after ':'" : Parse _).run.run reg = (.ok (type, m), reg) := type_run htype
  refine ⟨type, m.spanFrom l₁.head.span, l₁.left m, ?_, hsig, hm⟩
  unfold annotation
  rw [haccept]
  exact run_of_ok (map_run typed)

/-- All behind the keyword of the declaration. -/
theorem variableStmt_reads (sig : Signature) {n : Nat} (below : Below Parse n) (v : Visibility) {keyword : Token}
    (h : r.size ≤ n) (hahead : r.ahead = name :: colon :: (ts ++ [semicolon])) (hkeyword : keyword.kind = .kwLet)
    (hname : name.kind = .identifier) (hcolon : colon.kind = .colon) (hts : ts.map Token.glyph = sig.print)
    (hkind : semicolon.kind = .semicolon) (hnew : ∀ x, ∃ reg', reg.defineVariable ctx.scope x = (.ok (), reg')) :
    ∃ d m reg', (variableStmt below ctx v keyword r h).run.run reg = (.ok (.variable d, m), reg') ∧
      d.value = none ∧ sig.Is d.type ∧ m.ahead = [] := by
  have settled : Region.settle [semicolon] = [semicolon] := settle_cons (by rw [hkind]; decide)
  obtain ⟨l, htake, hl⟩ : ∃ l : Left r, r.takeNamed .identifier "variable name" = .ok (name, l) ∧
      l.ahead = Region.settle (colon :: (ts ++ [semicolon])) := Region.takeOr_first hahead hname
  rw [settle_cons (by rw [hcolon]; decide)] at hl
  obtain ⟨type, span, l₁, given, hsig, hl₁⟩ := sig.annotation_reads hl hcolon hts (typeEnds_semicolon hkind)
  rw [settled] at hl₁
  have uninitialized : l₁.accept? .assign = none := Left.accept?_other hl₁ (by rw [hkind]; decide)
  obtain ⟨d, reg', hdecl, hvalue, flags, hflags⟩ := variableDecl_run below v h hkeyword htake given uninitialized hnew
  obtain ⟨m, hsemicolon, hm⟩ := l₁.take_first hl₁ hkind
  refine ⟨d, m, reg', ?_, hvalue, hflags ▸ hsig.setFlags flags, hm⟩
  unfold variableStmt
  rw [run_of_ok hdecl]
  dsimp only
  rw [hsemicolon]
  rfl

end

/-- The declaration is read from a region that it fills. -/
theorem declaration_stands (sig : Signature) :
    Stands sig.declaration fun s => ∃ d, s = .variable d ∧ sig.Is d.type := by
  intro source r ts semicolon hahead hts hkind
  obtain ⟨keyword, ts, rfl, hkeyword, hts⟩ := List.map_eq_cons_iff.mp hts
  obtain ⟨name, ts, rfl, hname, hts⟩ := List.map_eq_cons_iff.mp hts
  obtain ⟨colon, ts, rfl, hcolon, hts⟩ := List.map_eq_cons_iff.mp hts
  replace hkeyword : keyword.kind = .kwLet := congrArg Glyph.kind hkeyword
  replace hname : name.kind = .identifier := congrArg Glyph.kind hname
  let ctx : Context := { source }
  have hdepth : ctx.depth < maxDepth := show 0 < maxDepth by decide
  obtain ⟨l, hl, hstatement⟩ := statementAt_variable hdepth hahead (by rw [hkeyword]; decide)
  replace hl : l.ahead = name :: colon :: (ts ++ [semicolon]) := hl.trans (settle_cons (by rw [hname]; decide))
  obtain ⟨d, m, reg, read, hvalue, hsig, hm⟩ :
      ∃ d m reg, (variableStmt (below r.size) { ctx with depth := 1 } .inherited keyword l.toRegion
          (l.within r.size_le) : Parse _).run.run .empty = (.ok (.variable d, m), reg) ∧
        d.value = none ∧ sig.Is d.type ∧ m.ahead = [] :=
    sig.variableStmt_reads (below r.size) .inherited _ hl hkeyword hname (congrArg Glyph.kind hcolon) hts hkind
      fun x => ⟨_, rfl⟩
  refine ⟨.variable d, l.left m, reg, ?_, hm, ?_, d, rfl, hsig⟩
  · rw [hstatement]
    exact map_run read
  · cases d
    subst hvalue
    rfl

/-- A file with a variable of any signature. -/
theorem read_declaration (sig : Signature) :
    ∃ source p reg d, Registry.empty.read source = (.ok p, reg) ∧ p.body.stmts = [.variable d] ∧
      sig.Is d.type := by
  have semicolon : Token.Scan.Lexes [';'] [.mark .semicolon, ⟨.eof, ""⟩] := .token [] rfl rfl .nil
  have inside : ∀ g ∈ sig.declaration, Inside g := by
    refine List.forall_mem_cons.mpr ⟨by decide, List.forall_mem_cons.mpr ⟨by decide, ?_⟩⟩
    exact List.forall_mem_cons.mpr ⟨by decide, sig.inside⟩
  obtain ⟨source, p, reg, _, hread, hstmts, d, rfl, hd⟩ :=
    sig.declaration_stands.read (sig.declaration_lexes semicolon) (List.cons_ne_nil _ _) inside
  exact ⟨source, p, reg, d, hread, hstmts, hd⟩

end Signature

/-! ### What the limit is on -/

namespace Registry

/-- The statements of a program that is accepted are no deeper than the limit. -/
theorem readTokens_shallow {reg reg' : Registry} {source : Source} {tokens : List Token} {p : Program}
    (hread : reg.readTokens source tokens = (.ok p, reg')) {q : Part} (hq : q ∈ (Part.block p.body).parts) :
    q.Shallow maxDepth := by
  obtain ⟨b, l, hreplaces, hlays, _⟩ := exists_lays hread
  have hparts := (Part.keeps_of_replaces (reg'.retargets source) hreplaces).parts
  obtain ⟨drafted, hmem, hdrafted⟩ := exists_mem_of_forall₂ hparts hq
  intro k hk
  exact hlays.shallow drafted hmem k (hk.of_replaces (reg'.retargets source) hdrafted)

/-- In what is accepted, whatever the tokens, no chain of blocks, functions without a name and operators in
front of their operands is longer than the limit. Powers can be nested in each other as often as one likes,
and so can functions in the types of functions, in their parameters and in their results. -/
theorem read_depth {reg reg' : Registry} {source : Source} {tokens : List Token} {p : Program}
    (hread : reg.readTokens source tokens = (.ok p, reg')) (n : Nat) (sig : Signature) :
    (∀ q ∈ (Part.block p.body).parts, q.Shallow maxDepth) ∧
    (∃ source p reg e, Registry.empty.read source = (.ok p, reg) ∧ p.body.stmts = [.expr e] ∧ e.powers = n) ∧
    ∃ source p reg d, Registry.empty.read source = (.ok p, reg) ∧ p.body.stmts = [.variable d] ∧
      sig.Is d.type :=
  ⟨fun _ hq => readTokens_shallow hread hq, Formula.read_powers n, sig.read_declaration⟩

/-- A function in a function is below the limit; powers are beyond it, and so are functions that return
functions. -/
theorem read_depth_exceeded :
    let source : Source := ⟨0, "unit.st",
      "fn f(): void \x7b if (!!true) \x7b let g = (x: i32): i32 -> \x7b return - - -x; \x7d; \x7d \x7d"⟩
    (∃ tokens p reg, Registry.empty.readTokens source tokens = (.ok p, reg) ∧ p.body.stmts.length = 1 ∧
      ∀ q ∈ (Part.block p.body).parts, q.Shallow maxDepth) ∧
    (∃ source p reg e, Registry.empty.read source = (.ok p, reg) ∧ p.body.stmts = [.expr e] ∧
      e.powers = maxDepth + 1) ∧
    ∃ source p reg d, Registry.empty.read source = (.ok p, reg) ∧ p.body.stmts = [.variable d] ∧
      (Nat.repeat (Signature.arrow .plain) (maxDepth + 1) .plain).Is d.type := by
  intro source
  obtain ⟨p, reg, hread, hlength⟩ := exists_of_read .empty source (by rfl) (fun p _ => p.body.stmts.length) (x := 1)
    (by decide +kernel)
  obtain ⟨tokens, _, hunit⟩ := exists_tokens hread
  obtain ⟨shallow, powers, signature⟩ := read_depth hunit (maxDepth + 1)
    (Nat.repeat (Signature.arrow .plain) (maxDepth + 1) .plain)
  exact ⟨⟨tokens, p, reg, hunit, hlength, shallow⟩, powers, signature⟩

end Registry

end OnePass
