import OnePass.Proofs.Grammar.Expressions
import OnePass.Proofs.Twin.Routine

/-!
Expressions are read alike from twins and laid out as they are read, where what is shorter is. What is checked of
them has a span, and that is where the check points when it fails. Where an expression goes on behind what has been
read of it, the place where it began is that of a region `o`, and what comes of it is stated for that region.
-/

namespace OnePass
namespace Grammar

open Token (Kind)

variable {S : Survey} {σ : Marks} {n n' : Nat} {below : Below Parse n} {below' : Below Tracked n'} {ctx : Context}
  {o r r' : Region} {h : r.size ≤ n} {h' : r'.size ≤ n'}

theorem literal_alike {source : Source} {t : Token} (hsource : S.locates → source = S.source) (ht : t ∈ S.tokens) :
    S.Match (· = ·) (literal source t) (literal source t) := by
  have integer (long : Bool) :
      S.Match (· = ·) (integerLiteral source t long) (integerLiteral source t long) := by
    unfold integerLiteral
    split
    · exact .ok rfl
    · exact .error (.located hsource (S.ofToken t ht))
  have float (double : Bool) : S.Match (· = ·) (floatLiteral source t double) (floatLiteral source t double) := by
    unfold floatLiteral
    split
    · exact .ok rfl
    · exact .error (.located hsource (S.ofToken t ht))
  unfold literal
  split
  · exact integer false
  · exact integer true
  · exact float false
  · exact float true
  all_goals exact .ok rfl

/-! ### Names -/

/-- A call that was read from `o` on ends with what closes its arguments. -/
theorem closes_of_lays {d : Nat} {inner rest l : Region} {c : Call} (hargs : Lays S d inner l (c.args.map .expr))
    (encloses : r.Encloses inner rest) (ho : o.Leaves r) (hlt : rest.size < o.size)
    (hspan : c.span = rest.spanFrom o.head.span) (hr : o.Orderly S.source) : c.Closes := by
  obtain ⟨_, reads⟩ := ho
  have inside := reads.orderly hr
  have first := hr.head_solid (Nat.zero_lt_of_lt hlt)
  have last := hargs.last_lt encloses inside
  constructor <;> rw [hspan, Region.spanFrom, Span.merge]
  · exact Nat.lt_of_le_of_lt (Nat.min_le_left _ _) (Nat.lt_of_lt_of_le first (Nat.le_max_left _ _))
  · intro e he
    have ends := (hargs.inOrder (encloses.orderly inside)).bounds e.span
      (List.mem_map_of_mem (List.mem_map_of_mem he))
    exact Nat.lt_of_le_of_lt ends.2 (Nat.lt_of_lt_of_le last (Nat.le_max_right _ _))

section

variable (hbelow : below.Twins S below') (hctx : S.Meets σ ctx) (hr : S.Twin r r')
  {segments : List String}

include hctx in
theorem argTypes_alike {args : List Expr} (hargs : ∀ e ∈ args, S.span e.span) :
    S.Alike σ (· = ·) (args.mapM fun arg => ctx.check (·.infer arg))
      (args.mapM fun arg => ctx.place.check (·.infer arg)) :=
  .mapM fun _ he => .checks hctx fun _ => Typing.Setting.infer_fails (hargs _ he)

include hbelow hctx hr

theorem call_alike (ho : o.Spares r) (hstart : S.span o.head.span) :
    S.Alike σ (S.Makes ctx.depth o .expr) (call below ctx segments o.head.span r h)
      (call below' ctx.place segments o.head.span r' h') := by
  unfold call
  refine .lift hr.carveParens ?_
  rintro ⟨inner, rest⟩ ⟨inner', rest'⟩ hcarve ⟨hinner, hrest⟩
  refine .bind (.leftItems (d := ctx.depth) .expr ?_ hinner) ?_
  · intro r₀ r₀' h₀ h₀' before hr₀
    rw [hr₀.fail_eq]
    exact .guard (hr₀.fail _) fun _ => hbelow.expression _ _ hctx hr₀
  · rintro args _ ⟨rfl, l, hargs, hdone⟩
    refine .bind (argTypes_alike hctx fun e he => hargs.span_of_mem (List.mem_map_of_mem he)) ?_
    rintro argTypes _ rfl
    have hspan := hrest.spanFrom hstart
    refine .get fun reg => ?_
    rw [hrest.spanFrom_eq]
    refine .lift (.self hctx.source (Registry.aim_fails hspan)) ?_
    rintro c _ hc rfl
    obtain ⟨_, _, rfl⟩ := aim_eq_ok hc
    have encloses := Region.carveParens_encloses hcarve
    have inside := hargs.carved encloses hdone
    have hlt := Nat.lt_of_lt_of_le rest.shorter ho.leaves.size_le
    refine .pure ⟨rfl, .spanning (.after ho inside) hlt rfl hspan (Nat.zero_le _) rfl fun hr c hc => ?_, hrest⟩
    obtain rfl := Option.some.inj hc
    exact closes_of_lays hargs encloses ho.leaves hlt rfl hr

theorem entry_alike :
    S.Alike σ (S.Makes ctx.depth r .entry) (entry below ctx r h) (entry below' ctx.place r' h') := by
  unfold entry
  refine .lift (hr.takeNamed .identifier _) ?_
  rintro ⟨name, r₁⟩ ⟨_, r₁'⟩ hname ⟨rfl, _, hr₁⟩
  obtain ⟨rfl, h₁, _⟩ := Region.takeOr_takes (by decide) hname
  refine .lift (hr₁.leftTakeNamed .colon _) ?_
  rintro ⟨_, r₂⟩ ⟨_, r₂'⟩ hcolon ⟨_, _, hr₂⟩
  have h₂ := h₁.trans (r₁.takeNamed_takes (by decide) hcolon).spares
  refine .bind (.read (hbelow.expression _ _ hctx hr₂)) ?_
  rintro ⟨value, r₃⟩ ⟨_, r₃'⟩ ⟨rfl, hvalue, hr₃⟩
  dsimp only
  rw [hr₃.spanFrom_eq]
  exact .pure ⟨rfl, .plainNode (.after h₂ hvalue) r₃.shorter rfl (hr₃.spanFrom hr.head_span) rfl rfl, hr₃⟩

theorem construction_alike (ho : o.Spares r) (hstart : S.span o.head.span) :
    S.Alike σ (S.Makes ctx.depth o .expr) (construction below ctx segments o.head.span r h)
      (construction below' ctx.place segments o.head.span r' h') := by
  unfold construction
  refine .lift hr.carveBraces ?_
  rintro ⟨inner, rest⟩ ⟨inner', rest'⟩ hcarve ⟨hinner, hrest⟩
  refine .bind (.leftItems .entry (fun _ _ _ _ _ hr₀ => entry_alike hbelow hctx hr₀) hinner) ?_
  rintro fields _ ⟨rfl, l, hfields, hdone⟩
  have hspan := hrest.spanFrom hstart
  refine .get fun reg => ?_
  rw [hrest.spanFrom_eq, Context.place_scope]
  split
  · exact .fail hctx hspan
  · refine .check hctx (fun _ => ?_) fun _ => ?_
    · refine Typing.Setting.checkConstruction_fails hspan fun e he => ?_
      have lies := hfields.lies _ (List.mem_map_of_mem he)
      exact ⟨lies.span, (lies.inner (.expr e.value) List.mem_cons_self).span⟩
    · have inside := hfields.carved (Region.carveBraces_encloses hcarve) hdone
      exact .pure ⟨rfl, .plainNode (.after ho inside) (Nat.lt_of_lt_of_le rest.shorter ho.leaves.size_le) rfl hspan
        rfl rfl, hrest⟩

omit hbelow hctx in
theorem member_alike {d : Nat} (segments : Nat) (before : List Member)
    (hbefore : Lays S d o r (before.map .member)) :
    S.Alike σ (S.Round (fun ms l => Lays S d o l (ms.map .member)) (fun ms l => Lays S d o l (ms.map .member)) before)
      (member segments before r) (member segments before r') := by
  unfold member
  rcases hr.accept? .dot with ⟨hn, hn'⟩ | ⟨_, r₁, r₁', hdot, hn', _, hr₁⟩
  · rw [hn, hn']
    exact .pure (.stop hbefore)
  · rw [hdot, hn']
    have h₁ := hbefore.andThen (Region.accept?_takes (by decide) hdot).spares
    refine .lift (hr₁.leftTakeNamed .identifier _) ?_
    rintro ⟨t, r₂⟩ ⟨_, r₂'⟩ hname ⟨rfl, _, hr₂⟩
    obtain ⟨rfl, h₂, hlt⟩ := r₁.takeNamed_takes (by decide) hname
    have both : Lays S d o r₂ ((before ++ [Member.mk r₁.head.lexeme r₁.head.span]).map .member) := by
      rw [List.map_append]
      exact h₁.append (.token h₂ hlt rfl hr₁.head_span rfl rfl rfl)
    dsimp only
    rw [hr₂.fail_eq]
    exact .guard (hr₂.fail _) fun _ => .pure (.go ⟨rfl, both, hr₂⟩)

omit hbelow in
theorem variableExpr_alike {d : Nat} {l : Left r} {l' : Left r'} {span : Span} (hl : S.Twin l l')
    (spares : r.Spares l) (hspan : span = l.spanFrom r.head.span) (hs : S.span span) :
    S.Alike σ (S.Makes d r .expr) (variableExpr ctx segments span r.head.span l)
      (variableExpr ctx.place segments span r.head.span l') := by
  unfold variableExpr
  refine .get fun reg => ?_
  refine .lift (.self hctx.source (Registry.resolveIdentifier_fails hs)) ?_
  rintro id _ hid rfl
  have place : id.span = l.spanFrom r.head.span := (resolveIdentifier_eq_ok hid).2.1.trans hspan
  refine .bind ((S.parsePairing σ).leftLoop (I := fun ms rest => Lays S d l rest (List.map Part.member ms))
    (fun _ _ _ _ before hr₀ => member_alike hr₀ segments.length before) hl (.nil (.refl l))) ?_
  rintro ⟨members, rest⟩ ⟨_, rest'⟩ ⟨rfl, hmembers, hrest⟩
  dsimp only at hmembers ⊢
  rw [hrest.spanFrom_eq]
  split
  · rename_i hnone
    have alone : Lays S d r l [.expr (.identifier id)] :=
      .plainNode (.nil spares) l.shorter place (hspan ▸ hs) rfl rfl
    rw [List.isEmpty_iff.mp hnone] at hmembers
    exact .pure ⟨rfl, alone.append hmembers, hrest⟩
  · have base : Lays S d r l [.name id] := .plainNode (.nil spares) l.shorter place (hspan ▸ hs) rfl rfl
    have hmember := hrest.spanFrom hr.head_span
    refine .check hctx (fun _ => Typing.Setting.infer_fails hmember) fun _ => ?_
    exact .pure ⟨rfl, .plainNode (base.append hmembers) rest.shorter rfl hmember rfl rfl, hrest⟩

theorem nameExpr_alike :
    S.Alike σ (S.Makes ctx.depth r .expr) (nameExpr below ctx r h) (nameExpr below' ctx.place r' h') := by
  unfold nameExpr
  rw [hr.head_eq]
  refine .lift (path_alike _ hr) ?_
  rintro ⟨⟨segments, span⟩, r₁⟩ ⟨_, r₁'⟩ _ ⟨rfl, ⟨spelt, hspan, hs⟩, hr₁⟩
  have h₁ := spelt.spares
  dsimp only
  rw [hr₁.headIs_eq]
  have noBraces : S.Alike σ (S.Makes ctx.depth r .expr)
      (if r₁.headIs .leftParen = true then r₁.read (call below ctx segments r.head.span r₁ (r₁.within h))
        else variableExpr ctx segments span r.head.span r₁)
      (if r₁.headIs .leftParen = true then r₁'.read (call below' ctx.place segments r.head.span r₁' (r₁'.within h'))
        else variableExpr ctx.place segments span r.head.span r₁') := by
    split
    · exact .read (call_alike hbelow hctx hr₁ h₁ hr.head_span)
    · exact variableExpr_alike hctx hr hr₁ h₁ hspan hs
  rcases hr₁.leftAccept? .colonColon with ⟨hn, hn'⟩ | ⟨_, r₂, r₂', hcolons, hn', _, hr₂⟩
  · rw [hn, hn']
    exact noBraces
  · rw [hcolons, hn']
    have h₂ := h₁.trans (r₁.accept?_takes (by decide) hcolons).spares
    dsimp only
    rw [hr₂.headIs_eq]
    split
    · exact .read (construction_alike hbelow hctx hr₂ h₂ hr.head_span)
    · exact noBraces

/-! ### Functions without a name -/

theorem lambda_alike {d : Nat} (hdepth : ctx.depth = d + 1) (hd : ctx.depth ≤ maxDepth) :
    S.Alike σ (S.Makes d r .expr) (lambda below ctx r h) (lambda below' ctx.place r' h') := by
  unfold lambda
  rw [hr.head_eq]
  refine .modifyGet fun name => ?_
  refine .modifyGet fun scope => ?_
  have hscope := hctx.inScope scope
  refine .lift hr.carveParens ?_
  rintro ⟨header, r₁⟩ ⟨header', r₁'⟩ hcarve ⟨hheader, hr₁⟩
  refine .bind (parameters_alike hscope hheader (d + 1)) ?_
  rintro ⟨params, isVariadic⟩ _ ⟨rfl, _, hparams, hdone⟩
  have h₁ := hparams.carved (Region.carveParens_encloses hcarve) hdone
  refine .lift (hr₁.leftTakeNamed .colon _) ?_
  rintro ⟨_, r₂⟩ ⟨_, r₂'⟩ hcolon ⟨_, _, hr₂⟩
  have h₂ := h₁.andThen (r₁.takeNamed_takes (by decide) hcolon).spares
  refine .bind (.read (type_alike hctx.source hctx.declaring hr₂)) ?_
  rintro ⟨result, r₃⟩ ⟨_, r₃'⟩ ⟨rfl, h₃, hr₃⟩
  refine .lift (hr₃.leftTakeNamed .arrow _) ?_
  rintro ⟨_, r₄⟩ ⟨_, r₄'⟩ harrow ⟨_, _, hr₄⟩
  have h₄ := (h₂.andThen h₃).andThen (r₃.takeNamed_takes (by decide) harrow).spares
  refine .enter hctx hr.head_span ?_
  refine .bind (.read (body_alike hbelow hscope hr₄ hd _ _ _)) ?_
  rintro ⟨b, r₅⟩ ⟨_, r₅'⟩ ⟨rfl, hb, hr₅⟩
  dsimp only
  rw [hr₅.spanFrom_eq]
  refine .pure ⟨rfl, .node (h₄.append (hdepth ▸ hb)) r₅.shorter rfl (hr₅.spanFrom hr.head_span) ?_ rfl, hr₅⟩
  exact Nat.le_sub_of_add_le (by rw [Part.weight]; omega)

/-! ### Operands -/

theorem parenthesized_alike :
    S.Alike σ (S.Makes ctx.depth r .expr) (parenthesized below ctx r h) (parenthesized below' ctx.place r' h') := by
  unfold parenthesized
  rw [hr.head_eq]
  refine .lift hr.carveParens ?_
  rintro ⟨inner, rest⟩ ⟨inner', rest'⟩ hcarve ⟨hinner, hrest⟩
  dsimp only
  rw [hinner.hasNext_eq]
  refine .guard (.located hctx.source hr.head_span) fun _ => ?_
  refine .bind (hbelow.expression _ _ hctx hinner) ?_
  rintro ⟨e, left⟩ ⟨_, left'⟩ ⟨rfl, he, hleft⟩
  refine .lift hleft.finish fun _ _ hfinish _ => ?_
  exact .pure ⟨rfl, he.carved (Region.carveParens_encloses hcarve) (Region.hasNext_of_finish hfinish), hrest⟩

theorem arrayExpr_alike :
    S.Alike σ (S.Makes ctx.depth r .expr) (arrayExpr below ctx r h) (arrayExpr below' ctx.place r' h') := by
  unfold arrayExpr
  rw [hr.head_eq]
  refine .lift hr.carveBrackets ?_
  rintro ⟨inner, rest⟩ ⟨inner', rest'⟩ hcarve ⟨hinner, hrest⟩
  refine .bind (.leftItems .expr (fun _ _ _ _ _ hr₀ => hbelow.expression _ _ hctx hr₀) hinner) ?_
  rintro elements _ ⟨rfl, _, helements, hdone⟩
  have inside := helements.carved (Region.carveBrackets_encloses hcarve) hdone
  rw [hrest.spanFrom_eq]
  exact .pure ⟨rfl, .plainNode inside rest.shorter rfl (hrest.spanFrom hr.head_span) rfl rfl, hrest⟩

omit hbelow in
theorem variadicExpr_alike {d : Nat} :
    S.Alike σ (S.Makes d r .expr) (variadicExpr ctx r) (variadicExpr ctx.place r') := by
  unfold variadicExpr
  refine .lift (hr.take .ellipsis) ?_
  rintro ⟨t, rest⟩ ⟨_, rest'⟩ hdots ⟨rfl, _, hrest⟩
  obtain ⟨rfl, spares, hlt⟩ := Region.takeOr_takes (by decide) hdots
  refine .routine hctx ?_
  refine .guard (.located hctx.source hr.head_span) fun _ => .pure ⟨rfl, ?_, hrest⟩
  exact .token spares hlt rfl hr.head_span rfl rfl rfl

theorem primary_alike :
    S.Alike σ (S.Makes ctx.depth r .expr) (primary below ctx r h) (primary below' ctx.place r' h') := by
  unfold primary
  rcases hr.next? with ⟨hn, hn'⟩ | ⟨t, rest, rest', hnext, hn', ht, hrest⟩
  · rw [hn, hn', hr.fail_eq]
    exact .throw (hr.fail _)
  · rw [hnext, hn']
    dsimp only
    split
    · rename_i hliteral
      have plain := Region.isPlain_of_ne Kind.isLiteral (hliteral.trans_ne (by decide))
        (hliteral.trans_ne (by decide))
      obtain ⟨rfl, spares, hlt⟩ := Region.next?_takes hnext plain
      refine .lift (literal_alike hctx.source ht) ?_
      rintro value _ _ rfl
      exact .pure ⟨rfl, .token spares hlt rfl hr.head_span rfl rfl rfl, hrest⟩
    · split
      · exact nameExpr_alike hbelow hctx hr
      · exact parenthesized_alike hbelow hctx hr
      · exact arrayExpr_alike hbelow hctx hr
      · exact variadicExpr_alike hctx hr
      · rw [hr.fail_eq]
        exact .throw (hr.fail _)

/-- An index behind what was read from `o` on. -/
theorem indexed_alike {array : Expr} (hstart : S.span o.head.span) (harray : Lays S ctx.depth o r [.expr array]) :
    S.Alike σ (S.Makes ctx.depth o .expr) (indexed below ctx o.head.span array r h)
      (indexed below' ctx.place o.head.span array r' h') := by
  unfold indexed
  refine .lift hr.carveBrackets ?_
  rintro ⟨inner, rest⟩ ⟨inner', rest'⟩ hcarve ⟨hinner, hrest⟩
  dsimp only
  rw [hinner.hasNext_eq, hrest.last_eq]
  refine .guard (.located hctx.source hrest.last) fun _ => ?_
  refine .bind (hbelow.expression _ _ hctx hinner) ?_
  rintro ⟨index, left⟩ ⟨_, left'⟩ ⟨rfl, hindex, hleft⟩
  refine .lift hleft.finish fun _ _ hfinish _ => ?_
  have both := harray.append
    (hindex.carved (Region.carveBrackets_encloses hcarve) (Region.hasNext_of_finish hfinish))
  have hspan := hrest.spanFrom hstart
  refine .check hctx (fun _ => Typing.Setting.checkIndex_fails hindex.span) fun _ => ?_
  rw [hrest.spanFrom_eq]
  refine .check hctx (fun _ => Typing.Setting.infer_fails hspan) fun _ => ?_
  have hlt := Nat.lt_of_lt_of_le rest.shorter harray.leaves.size_le
  exact .pure ⟨rfl, .plainNode both hlt rfl hspan rfl rfl, hrest⟩

theorem operatorBehind?_alike {e : Expr} (hstart : S.span o.head.span) (he : Lays S ctx.depth o r [.expr e]) :
    S.Alike σ (S.Round (fun e l => Lays S ctx.depth o l [.expr e]) (fun e l => Lays S ctx.depth o l [.expr e]) e)
      (operatorBehind? below ctx o.head.span e r h) (operatorBehind? below' ctx.place o.head.span e r' h') := by
  unfold operatorBehind?
  rcases hr.next? with ⟨hn, hn'⟩ | ⟨t, rest, rest', hnext, hn', _, hrest⟩
  · rw [hn, hn']
    exact .pure (.stop he)
  · rw [hnext, hn']
    dsimp only
    split
    · refine .bind (indexed_alike hbelow hctx hr hstart he) fun s s' hs => ?_
      exact .pure (.go hs)
    · split
      · rename_i op hop
        have plain := Region.isPlain_of_some ⟨rfl, rfl⟩ hop
        have behind := he.andThen (Region.next?_takes hnext plain).spares
        have trails : op.leads = false := by
          unfold postfixOp? at hop
          split at hop <;> cases hop <;> rfl
        have hlt := Nat.lt_of_lt_of_le rest.shorter he.leaves.size_le
        refine .check hctx (fun _ => Typing.Setting.checkIncrement_fails he.span) fun _ => ?_
        rw [hrest.spanFrom_eq]
        refine .pure (.go ⟨rfl, ?_, hrest⟩)
        exact .plainNode behind hlt rfl (hrest.spanFrom hstart) (congrArg Bool.toNat trails) rfl
      · exact .pure (.stop he)

theorem postfixes_alike :
    S.Alike σ (S.Makes ctx.depth r .expr) (postfixes below ctx r h) (postfixes below' ctx.place r' h') := by
  unfold postfixes
  rw [hr.head_eq]
  refine .bind (primary_alike hbelow hctx hr) ?_
  rintro ⟨e, r₁⟩ ⟨_, r₁'⟩ ⟨rfl, he, hr₁⟩
  refine (S.parsePairing σ).leftLoop (I := fun e l => Lays S ctx.depth r l [.expr e]) ?_ hr₁ he
  exact fun _ _ _ _ _ hr₀ he => operatorBehind?_alike hbelow hctx hr₀ hr.head_span he

/-! ### Operators -/

theorem unary_alike (h : r.size ≤ n) (h' : r'.size ≤ n') :
    S.Alike σ (S.Makes ctx.depth r .expr) (unary below ctx r h) (unary below' ctx.place r' h') := by
  unfold unary
  rcases hr.next? with ⟨hn, hn'⟩ | ⟨t, r₁, r₁', hnext, hn', _, hr₁⟩
  · rw [hn, hn']
    exact postfixes_alike hbelow hctx hr
  · rw [hnext, hn']
    dsimp only
    split
    · rename_i op hop
      have plain := Region.isPlain_of_some ⟨rfl, rfl⟩ hop
      obtain ⟨rfl, h₁, _⟩ := Region.next?_takes hnext plain
      have leads : op.leads = true := by
        unfold prefixOp? at hop
        split at hop <;> cases hop <;> rfl
      have operand : S.Alike σ
          (S.Steps fun e l => ctx.depth < maxDepth ∧ Lays S (ctx.depth + 1) r₁ l [.expr e])
          (nested ctx r₁ fun ctx => below.unary ctx r₁ (r₁.below h))
          (nested ctx.place r₁' fun ctx => below'.unary ctx r₁' (r₁'.below h')) :=
        .nested hctx hr₁ fun hd hinner => (hbelow.unary _ _ hinner hr₁).imp
          fun _ _ ⟨heq, he, hl⟩ => ⟨heq, ⟨hd, he⟩, hl⟩
      refine .bind (.read operand) ?_
      rintro ⟨operand, r₂⟩ ⟨_, r₂'⟩ ⟨rfl, ⟨hd, hoperand⟩, hr₂⟩
      dsimp only
      rw [hr₂.spanFrom_eq]
      have weight : (Part.expr (.unary op operand (r₂.spanFrom r.head.span))).weight = 1 := congrArg Bool.toNat leads
      have made : Lays S ctx.depth r r₂ [.expr (.unary op operand (r₂.spanFrom r.head.span))] := by
        refine .node ?_ r₂.shorter rfl (hr₂.spanFrom hr.head_span) ?_ rfl
        · rw [weight]
          exact .after h₁ hoperand
        · rw [weight]
          exact Nat.le_sub_of_add_le (by omega)
      split
      · refine .check hctx (fun _ => Typing.Setting.checkIncrement_fails hoperand.span) fun _ => ?_
        exact .pure ⟨rfl, made, hr₂⟩
      · exact .pure ⟨rfl, made, hr₂⟩
    · exact postfixes_alike hbelow hctx hr

theorem power_alike (h : r.size ≤ n) (h' : r'.size ≤ n') :
    S.Alike σ (S.Makes ctx.depth r .expr) (power below ctx r h) (power below' ctx.place r' h') := by
  unfold power
  rw [hr.head_eq]
  refine .bind (unary_alike hbelow hctx hr _ _) ?_
  rintro ⟨base, r₁⟩ ⟨_, r₁'⟩ ⟨rfl, hbase, hr₁⟩
  dsimp only
  rcases hr₁.leftAccept? .starStar with ⟨hn, hn'⟩ | ⟨_, r₂, r₂', hop, hn', _, hr₂⟩
  · rw [hn, hn']
    exact .pure ⟨rfl, hbase, hr₁⟩
  · rw [hop, hn']
    have h₂ := hbase.andThen (r₁.accept?_takes (by decide) hop).spares
    refine .bind (.read (hbelow.power _ _ hctx hr₂)) ?_
    rintro ⟨exponent, r₃⟩ ⟨_, r₃'⟩ ⟨rfl, hexponent, hr₃⟩
    dsimp only
    rw [hr₃.spanFrom_eq]
    exact .pure ⟨rfl, .plainNode (h₂.append hexponent) r₃.shorter rfl (hr₃.spanFrom hr.head_span) rfl rfl, hr₃⟩

end

section Chain

variable {d : Nat} {op? : Kind → Option BinaryOp} {operand : (r : Region) → r.size ≤ n → Parse (Step r Expr)}
  {operand' : (r : Region) → r.size ≤ n' → Tracked (Step r Expr)}
  (hoperand : ∀ r r' h h', S.Twin r r' → S.Alike σ (S.Makes d r .expr) (operand r h) (operand' r' h'))
  (hop? : op? .comment = none ∧ op? .kwImport = none)

include hoperand hop?

theorem link?_alike {lhs : Expr} (hr : S.Twin r r') (hstart : S.span o.head.span)
    (hlhs : Lays S d o r [.expr lhs]) :
    S.Alike σ (S.Round (fun e l => Lays S d o l [.expr e]) (fun e l => Lays S d o l [.expr e]) lhs)
      (link? op? operand o.head.span lhs r h) (link? op? operand' o.head.span lhs r' h') := by
  unfold link?
  rcases hr.next? with ⟨hn, hn'⟩ | ⟨t, r₁, r₁', hnext, hn', _, hr₁⟩
  · rw [hn, hn']
    exact .pure (.stop hlhs)
  · rw [hnext, hn']
    dsimp only
    split
    · rename_i op hop
      have plain := Region.isPlain_of_some hop? hop
      have h₁ := hlhs.andThen (Region.next?_takes hnext plain).spares
      refine .bind (.read (hoperand _ _ _ _ hr₁)) ?_
      rintro ⟨rhs, r₂⟩ ⟨_, r₂'⟩ ⟨rfl, hrhs, hr₂⟩
      have hlt := Nat.lt_of_lt_of_le r₂.shorter hlhs.leaves.size_le
      dsimp only
      rw [hr₂.spanFrom_eq]
      exact .pure (.go ⟨rfl, .plainNode (h₁.append hrhs) hlt rfl (hr₂.spanFrom hstart) rfl rfl, hr₂⟩)
    · exact .pure (.stop hlhs)

theorem chain_alike (r r' : Region) (h : r.size ≤ n) (h' : r'.size ≤ n') (hr : S.Twin r r') :
    S.Alike σ (S.Makes d r .expr) (chain op? operand r h) (chain op? operand' r' h') := by
  unfold chain
  rw [hr.head_eq]
  refine .bind (hoperand _ _ _ _ hr) ?_
  rintro ⟨first, r₁⟩ ⟨_, r₁'⟩ ⟨rfl, hfirst, hr₁⟩
  refine (S.parsePairing σ).leftLoop (I := fun e l => Lays S d r l [.expr e]) ?_ hr₁ hfirst
  exact fun _ _ _ _ _ hr₀ hlhs => link?_alike hoperand hop? hr₀ hr.head_span hlhs

end Chain

section

variable (hbelow : below.Twins S below') (hctx : S.Meets σ ctx) (hr : S.Twin r r')

include hbelow hctx hr

theorem logical_alike :
    S.Alike σ (S.Makes ctx.depth r .expr) (logical below ctx r h) (logical below' ctx.place r' h') := by
  refine chain_alike (chain_alike (chain_alike (chain_alike ?_ ⟨rfl, rfl⟩) ⟨rfl, rfl⟩) ⟨rfl, rfl⟩) ⟨rfl, rfl⟩ r r' h
    h' hr
  exact fun _ _ h h' hr => power_alike hbelow hctx hr h h'

theorem assignment_alike :
    S.Alike σ (S.Makes ctx.depth r .expr) (assignment below ctx r h) (assignment below' ctx.place r' h') := by
  unfold assignment
  rw [hr.head_eq]
  refine .bind (logical_alike hbelow hctx hr) ?_
  rintro ⟨target, r₁⟩ ⟨_, r₁'⟩ ⟨rfl, htarget, hr₁⟩
  dsimp only
  rcases hr₁.leftNext? with ⟨hn, hn'⟩ | ⟨t, r₂, r₂', hnext, hn', ht, hr₂⟩
  · rw [hn, hn']
    exact .pure ⟨rfl, htarget, hr₁⟩
  · rw [hnext, hn']
    dsimp only
    split
    · rename_i op hop
      have plain := Region.isPlain_of_some ⟨rfl, rfl⟩ hop
      have h₂ := htarget.andThen (r₁.next?_takes hnext plain).spares
      refine .guard (.located hctx.source (S.ofToken t ht)) fun _ => ?_
      refine .bind (.read (hbelow.expression _ _ hctx hr₂)) ?_
      rintro ⟨value, r₃⟩ ⟨_, r₃'⟩ ⟨rfl, hvalue, hr₃⟩
      dsimp only
      rw [hr₃.spanFrom_eq]
      have hspan := hr₃.spanFrom hr.head_span
      refine .check hctx (fun _ => Typing.Setting.checkAssignment_fails hspan htarget.span hvalue.span) fun _ => ?_
      exact .pure ⟨rfl, .plainNode (h₂.append hvalue) r₃.shorter rfl hspan rfl rfl, hr₃⟩
    · exact .pure ⟨rfl, htarget, hr₁⟩

theorem expression_alike (h : r.size ≤ n) (h' : r'.size ≤ n') :
    S.Alike σ (S.Makes ctx.depth r .expr) (expression below ctx r h) (expression below' ctx.place r' h') := by
  unfold expression beginsLambda
  refine .nested hctx hr fun hd hinner => ?_
  rw [hr.headIs_eq, hr.peekIs_eq, hr.peekIs_eq, hr.peekIs_eq]
  split
  · exact lambda_alike hbelow hinner hr rfl hd
  · exact (assignment_alike hbelow hinner hr).imp fun _ _ he => he.mono (Nat.le_succ _)

end

end Grammar
end OnePass
