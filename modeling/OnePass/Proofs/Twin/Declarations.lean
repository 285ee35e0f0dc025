import OnePass.Proofs.Twin.Expressions

/-!
Declarations are read alike from twins and laid out as they are read, where what is shorter is. An import is put
together from the tokens that it was written with. The check of a variable's declaration is the one that may fail
without a place.
-/

namespace OnePass
namespace Grammar

open Token (Kind)

variable {S : Survey} {σ : Marks} {n n' d : Nat} {below : Below Parse n} {below' : Below Tracked n'} {ctx : Context}
  {o r r' : Region} {h : r.size ≤ n} {h' : r'.size ≤ n'} (hbelow : below.Twins S below') (hctx : S.Meets σ ctx)
  (hr : S.Twin r r')

/-! ### Imports and modules -/

section

include hctx hr

theorem importList_alike :
    S.Alike σ (S.Steps fun _ l => r.Braced l) (importList ctx r) (importList ctx.place r') := by
  unfold importList
  refine .lift hr.carveBraces ?_
  rintro ⟨inner, rest⟩ ⟨inner', rest'⟩ hcarve ⟨hinner, hrest⟩
  refine .bind ((S.parsePairing σ).items (I := fun _ l => inner.Spares l) ?_ ?_ hinner (.refl _)) ?_
  · exact fun _ _ l _ _ h hcomma => h.trans (l.accept?_takes (by decide) hcomma).spares
  · intro r₀ r₀' _ _ _ hr₀ h₀
    refine Survey.Alike.lift (hr₀.takeNamed .identifier _) ?_
    rintro ⟨t, l⟩ ⟨_, l'⟩ hname ⟨rfl, _, hl⟩
    exact .pure ⟨rfl, h₀.trans (Region.takeOr_takes (by decide) hname).spares, hl⟩
  · rintro names _ ⟨rfl, l, spares, hdone⟩
    obtain ⟨ts, opening, closing, reads, hts, hopening, hclosing⟩ :=
      Region.carve_reads (by decide) (by decide) hcarve
    rw [hrest.last_eq]
    refine .guard (.located hctx.source hrest.last) fun _ => .pure ⟨rfl, ?_, hrest⟩
    exact ⟨ts, opening, inner.pending, closing, reads, hts, hopening, hclosing, spares.pending hdone⟩

omit hr in
theorem importItems_alike {l : Left r} {l' : Left r'} (segments : List String) (hl : S.Twin l l') :
    S.Alike σ (S.Steps fun item rest => ∃ ts, l.Reads ts rest ∧
        Selects segments (Region.significant ts) item.1 item.2)
      (importItems ctx segments l) (importItems ctx.place segments l') := by
  unfold importItems
  rcases hl.leftAccept? .colonColon with ⟨hn, hn'⟩ | ⟨_, r₁, r₁', hcolons, hn', _, hr₁⟩
  · rw [hn, hn', hl.last_eq]
    refine .guard (.located hctx.source hl.last) fun hlong => .pure ⟨rfl, ⟨[], .refl l, ?_⟩, hl⟩
    rcases List.eq_nil_or_concat segments with rfl | ⟨module, name, rfl⟩
    · exact absurd (by decide) hlong
    · rw [List.concat_eq_append, List.dropLast_concat, List.getLast?_concat]
      exact .item fun hnil => hlong (by simp [hnil])
  · rw [hcolons, hn']
    obtain ⟨_, us, reads, hus, kind⟩ := l.accept?_reads (by decide) hcolons
    refine .bind (.read (importList_alike hctx hr₁)) ?_
    rintro ⟨names, r₂⟩ ⟨_, r₂'⟩ ⟨rfl, braced, hr₂⟩
    obtain ⟨ts, opening, inside, closing, reads', hts, hopening, hclosing, hinside⟩ := braced
    refine .pure ⟨rfl, ⟨us ++ ts, reads.trans reads', ?_⟩, hr₂⟩
    rw [Region.significant_append, hus, hts]
    exact .list kind hopening hinside hclosing

theorem importStmt_alike :
    S.Alike σ (S.Makes d r .stmt) (importStmt ctx r) (importStmt ctx.place r') := by
  unfold importStmt
  refine .lift (hr.take .kwImport) ?_
  rintro ⟨keyword, r₁⟩ ⟨_, r₁'⟩ hkeyword ⟨rfl, _, hr₁⟩
  obtain ⟨rfl, ts₁, reads₁, hts₁, hk₁⟩ :=
    Region.accept?_reads (by decide) (Region.accept?_of_takeOr hkeyword)
  refine .guard (.located hctx.source hr.head_span) fun _ => ?_
  refine .bind (.read (.liftLast (path_alike _ hr₁))) ?_
  rintro ⟨⟨segments, _⟩, r₂⟩ ⟨_, r₂'⟩ ⟨rfl, ⟨⟨ts₂, reads₂, hspells⟩, _⟩, hr₂⟩
  refine .bind (importItems_alike hctx segments hr₂) ?_
  rintro ⟨⟨module, names⟩, r₃⟩ ⟨_, r₃'⟩ ⟨rfl, ⟨ts₃, reads₃, hselects⟩, hr₃⟩
  refine .lift (hr₃.leftTake .semicolon) ?_
  rintro ⟨semicolon, r₄⟩ ⟨_, r₄'⟩ hsemicolon ⟨_, _, hr₄⟩
  obtain ⟨_, ts₄, reads₄, hts₄, hk₄⟩ := r₃.take_reads (by decide) hsemicolon
  have last : r₄.last = semicolon.span := by rw [reads₄.last, hts₄]; rfl
  have tokens : Region.significant (ts₁ ++ (ts₂ ++ (ts₃ ++ ts₄))) =
      r.head :: (Region.significant ts₂ ++ Region.significant ts₃ ++ [semicolon]) := by
    simp only [Region.significant_append, hts₁, hts₄, List.singleton_append, List.append_assoc]
  have written : (Stmt.imports module names (r₄.spanFrom r.head.span)).WrittenAs
      (Region.significant (ts₁ ++ (ts₂ ++ (ts₃ ++ ts₄)))) := by
    rw [tokens, Region.spanFrom, last]
    exact .mk hk₁ hspells hselects hk₄
  dsimp only
  rw [hr₄.spanFrom_eq]
  refine .pure ⟨rfl, ?_, hr₄⟩
  exact .leaf ⟨_, reads₁.trans (reads₂.trans (reads₃.trans reads₄)), .imports written⟩ r₄.shorter rfl
    (hr₄.spanFrom hr.head_span) rfl rfl rfl

end

theorem openModules_alike (scope : ScopeId) (segments : List String) :
    S.Alike σ (· = ·) (openModules scope segments) (openModules scope segments) := by
  induction segments generalizing scope with
  | nil => exact .pure rfl
  | cons s segments ih => exact .modifyGet fun scope => ih scope

section

include hbelow hctx hr

theorem moduleStmt_alike (hd : ctx.depth ≤ maxDepth) :
    S.Alike σ (S.Makes ctx.depth r .stmt) (moduleStmt below ctx r h) (moduleStmt below' ctx.place r' h') := by
  unfold moduleStmt
  refine .lift (hr.take .kwModule) ?_
  rintro ⟨keyword, r₁⟩ ⟨_, r₁'⟩ hkeyword ⟨rfl, _, hr₁⟩
  obtain ⟨rfl, h₁, _⟩ := Region.takeOr_takes (by decide) hkeyword
  refine .requireModule hctx hr.head_span ?_
  refine .bind (.read (.liftLast (path_alike _ hr₁))) ?_
  rintro ⟨⟨segments, _⟩, r₂⟩ ⟨_, r₂'⟩ ⟨rfl, ⟨spelt, _⟩, hr₂⟩
  refine .bind (openModules_alike _ _) ?_
  rintro scope _ rfl
  have hscope := hctx.inScope scope
  refine .bind (.read (block_alike hbelow hscope hr₂ hd _ _)) ?_
  rintro ⟨b, r₃⟩ ⟨_, r₃'⟩ ⟨rfl, hb, hr₃⟩
  dsimp only
  rw [hr₃.spanFrom_eq]
  refine .pure ⟨rfl, ?_, hr₃⟩
  exact .plainNode (.after (h₁.trans spelt.spares) hb) r₃.shorter rfl (hr₃.spanFrom hr.head_span) rfl rfl

end

/-! ### Functions -/

theorem modifiers_alike (hr : S.Twin r r') :
    S.Alike σ (S.Rests fun _ l => r.Spares l) (modifiers r) (modifiers r') := by
  refine (S.parsePairing σ).loop (I := fun _ l => r.Spares l) ?_ hr (.refl r)
  intro r₀ r₀' _ _ traits hr₀ h₀
  rcases hr₀.accept? .kwExtern with ⟨hx, hx'⟩ | ⟨_, r₁, r₁', hx, hx', _, hr₁⟩
  · rcases hr₀.accept? .kwAsync with ⟨ha, ha'⟩ | ⟨_, r₁, r₁', ha, ha', _, hr₁⟩
    · rw [hx, hx', ha, ha']
      exact Survey.Alike.pure (.stop h₀)
    · rw [hx, hx', ha, ha']
      exact Survey.Alike.pure (.go ⟨rfl, h₀.trans (Region.accept?_takes (by decide) ha).spares, hr₁⟩)
  · rw [hx, hx']
    exact Survey.Alike.pure (.go ⟨rfl, h₀.trans (Region.accept?_takes (by decide) hx).spares, hr₁⟩)

section

include hbelow hctx hr

theorem bodyOrNone_alike (hd : ctx.depth ≤ maxDepth) (isExtern : Bool) (routine : Enclosing) :
    S.Alike σ (S.Steps fun body l => Lays S ctx.depth r l (body.toList.map .block))
      (bodyOrNone below ctx isExtern routine r h) (bodyOrNone below' ctx.place isExtern routine r' h') := by
  unfold bodyOrNone
  split
  · refine .lift (hr.take .semicolon) ?_
    rintro ⟨_, rest⟩ ⟨_, rest'⟩ hsemicolon ⟨_, _, hrest⟩
    exact .pure ⟨rfl, .nil (Region.takeOr_takes (by decide) hsemicolon).spares, hrest⟩
  · refine .bind (body_alike hbelow hctx hr hd _ _ _) ?_
    rintro ⟨b, rest⟩ ⟨_, rest'⟩ ⟨rfl, hb, hrest⟩
    exact .pure ⟨rfl, hb, hrest⟩

theorem functionStmt_alike (hd : ctx.depth ≤ maxDepth) (visibility : Visibility) :
    S.Alike σ (S.Makes ctx.depth r .stmt) (functionStmt below ctx visibility r h)
      (functionStmt below' ctx.place visibility r' h') := by
  unfold functionStmt
  rw [hr.head_eq]
  refine .bind (modifiers_alike hr) ?_
  rintro ⟨traits, r₁⟩ ⟨_, r₁'⟩ ⟨rfl, h₁, hr₁⟩
  refine .lift (hr₁.keptTake .kwFn) ?_
  rintro ⟨_, r₂⟩ ⟨_, r₂'⟩ hfn ⟨_, _, hr₂⟩
  have h₂ := h₁.trans (r₁.take_takes (by decide) hfn).spares
  refine .requireModule hctx hr.head_span ?_
  refine .lift (hr₂.leftTakeNamed .identifier _) ?_
  rintro ⟨name, r₃⟩ ⟨_, r₃'⟩ hname ⟨rfl, known, hr₃⟩
  have h₃ := h₂.trans (r₂.takeNamed_takes (by decide) hname).spares
  refine .modifyGet fun scope => ?_
  have hscope := hctx.inScope scope
  refine .lift hr₃.leftCarveParens ?_
  rintro ⟨header, r₄⟩ ⟨header', r₄'⟩ hcarve ⟨hheader, hr₄⟩
  refine .bind (parameters_alike hscope hheader ctx.depth) ?_
  rintro ⟨params, isVariadic⟩ _ ⟨rfl, _, hparams, hdone⟩
  have h₄ := Lays.after h₃ (hparams.carved (r₃.carveParens_encloses hcarve) hdone)
  refine .lift (hr₄.leftTakeNamed .colon _) ?_
  rintro ⟨_, r₅⟩ ⟨_, r₅'⟩ hcolon ⟨_, _, hr₅⟩
  have h₅ := h₄.andThen (r₄.takeNamed_takes (by decide) hcolon).spares
  refine .bind (.read (type_alike hctx.source hctx.declaring hr₅)) ?_
  rintro ⟨result, r₆⟩ ⟨_, r₆'⟩ ⟨rfl, h₆, hr₆⟩
  refine .get fun reg => ?_
  refine .enter hctx (S.ofToken _ known.1) ?_
  refine .bind (.read (bodyOrNone_alike hbelow hscope hr₆ hd _ _)) ?_
  rintro ⟨b, r₇⟩ ⟨_, r₇'⟩ ⟨rfl, hb, hr₇⟩
  dsimp only
  rw [hr₇.spanFrom_eq]
  exact .pure ⟨rfl, .plainNode ((h₅.andThen h₆).append hb) r₇.shorter rfl (hr₇.spanFrom hr.head_span) rfl rfl, hr₇⟩

end

/-! ### Structs and enums -/

theorem fieldEnd_alike {l : Left r} {l' : Left r'} (hl : S.Twin l l') :
    S.Match (fun (m : Left r) (m' : Left r') => l.Spares m ∧ S.Twin m m') (fieldEnd l) (fieldEnd l') := by
  unfold fieldEnd
  rcases hl.leftAccept? .semicolon with ⟨hs, hs'⟩ | ⟨_, m, m', hs, hs', _, hm⟩
  · rcases hl.leftAccept? .comma with ⟨hc, hc'⟩ | ⟨_, m, m', hc, hc', _, hm⟩
    · rw [hs, hs', hc, hc', hl.hasNext_eq, hl.head_eq, hl.fail_eq]
      dsimp only
      split
      · exact .error (hl.fail _)
      · exact .ok ⟨.refl l, hl⟩
    · rw [hs, hs', hc, hc']
      exact .ok ⟨(l.accept?_takes (by decide) hc).spares, hm⟩
  · rw [hs, hs']
    exact .ok ⟨(l.accept?_takes (by decide) hs).spares, hm⟩

section

variable {internal : String} (hsource : S.locates → ctx.source = S.source) (hdeclaring : σ.declaring = some internal)

include hsource hdeclaring hr

theorem structField_alike (before : List StructField) :
    S.Alike σ (S.Makes d r .field) (structField ctx internal before r) (structField ctx.place internal before r') := by
  unfold structField
  refine .lift (hr.takeNamed .identifier _) ?_
  rintro ⟨name, r₁⟩ ⟨_, r₁'⟩ hname ⟨rfl, _, hr₁⟩
  obtain ⟨rfl, h₁, _⟩ := Region.takeOr_takes (by decide) hname
  refine .lift (hr₁.leftTakeNamed .colon _) ?_
  rintro ⟨_, r₂⟩ ⟨_, r₂'⟩ hcolon ⟨_, _, hr₂⟩
  have h₂ := h₁.trans (r₁.takeNamed_takes (by decide) hcolon).spares
  refine .bind (.read (type_alike hsource hdeclaring hr₂)) ?_
  rintro ⟨type, r₃⟩ ⟨_, r₃'⟩ ⟨rfl, h₃, hr₃⟩
  refine .lift (fieldEnd_alike hr₃) ?_
  rintro r₄ r₄' _ ⟨h₄, hr₄⟩
  rw [hr₄.spanFrom_eq]
  refine .guard (.located hsource hr.head_span) fun _ => .pure ⟨rfl, ?_, hr₄⟩
  have all := h₂.trans (h₃.trans h₄)
  exact .plainNode (.nil all) r₄.shorter rfl (hr₄.spanFrom hr.head_span) rfl rfl

theorem structFields_alike :
    S.Alike σ (S.Fills d r (·.map .field)) (structFields ctx internal r) (structFields ctx.place internal r') := by
  unfold structFields
  refine .bind ((S.parsePairing σ).loop (I := fun fields l => Lays S d r l (List.map Part.field fields))
    (D := fun fields l => Lays S d r l (fields.map .field) ∧ l.hasNext = false) ?_ hr (.nil (.refl r))) ?_
  · intro r₀ r₀' _ _ before hr₀ hbefore
    change S.Alike σ _ _ _
    rw [hr₀.hasNext_eq]
    split
    · rename_i hdone
      exact .pure (.stop ⟨hbefore, by simpa using hdone⟩)
    · refine .bind (structField_alike (d := d) hr₀ hsource hdeclaring before) ?_
      rintro ⟨field, r₁⟩ ⟨_, r₁'⟩ ⟨rfl, hfield, hr₁⟩
      have both : Lays S d r r₁ ((before ++ [field]).map .field) := by
        rw [List.map_append]
        exact hbefore.append hfield
      exact .pure (.go ⟨rfl, both, hr₁⟩)
  · rintro ⟨fields, rest⟩ ⟨_, _⟩ ⟨rfl, hfields, _⟩
    exact .pure ⟨rfl, rest, hfields⟩

end

section

include hctx hr

theorem structAlias_alike {symbol : Symbol} (hsymbol : S.span symbol.span) :
    S.Alike σ (S.Steps fun body l => Lays S d r l body.parts) (structAlias ctx symbol r)
      (structAlias ctx.place symbol r') := by
  unfold structAlias
  refine .lift (path_alike _ hr) ?_
  rintro ⟨⟨segments, span⟩, r₁⟩ ⟨_, r₁'⟩ _ ⟨rfl, ⟨spelt, _⟩, hr₁⟩
  refine .lift (hr₁.leftTake .semicolon) ?_
  rintro ⟨_, r₂⟩ ⟨_, r₂'⟩ hsemicolon ⟨_, _, hr₂⟩
  have h₂ := spelt.spares.trans (r₁.take_takes (by decide) hsemicolon).spares
  refine .get fun reg => ?_
  exact .enter hctx hsymbol (.pure ⟨rfl, .nil h₂, hr₂⟩)

theorem structBody_alike {symbol : Symbol} (hsymbol : S.span symbol.span) :
    S.Alike σ (S.Steps fun body l => Lays S d r l body.parts) (structBody ctx symbol r)
      (structBody ctx.place symbol r') := by
  unfold structBody
  refine .lift hr.carveBraces ?_
  rintro ⟨inner, rest⟩ ⟨inner', rest'⟩ hcarve ⟨hinner, hrest⟩
  refine .bind (.declaring hctx (structFields_alike (d := d) hinner hctx.source rfl)) ?_
  rintro fields _ ⟨rfl, _, hfields, hdone⟩
  have inside := hfields.carved (Region.carveBraces_encloses hcarve) hdone
  refine .guard (.located hctx.source hsymbol) fun _ => ?_
  exact .enter hctx hsymbol (.pure ⟨rfl, inside, hrest⟩)

theorem structStmt_alike (visibility : Visibility) :
    S.Alike σ (S.Makes d r .stmt) (structStmt ctx visibility r) (structStmt ctx.place visibility r') := by
  unfold structStmt
  refine .lift (hr.take .kwStruct) ?_
  rintro ⟨keyword, r₁⟩ ⟨_, r₁'⟩ hkeyword ⟨rfl, _, hr₁⟩
  obtain ⟨rfl, h₁, _⟩ := Region.takeOr_takes (by decide) hkeyword
  refine .requireModule hctx hr.head_span ?_
  refine .lift (hr₁.leftTakeNamed .identifier _) ?_
  rintro ⟨name, r₂⟩ ⟨_, r₂'⟩ hname ⟨rfl, known, hr₂⟩
  have hsymbol := S.ofToken _ known.1
  have h₂ := h₁.trans (r₁.takeNamed_takes (by decide) hname).spares
  refine .get fun reg => ?_
  dsimp only
  rcases hr₂.leftAccept? .assign with ⟨hn, hn'⟩ | ⟨_, r₃, r₃', hassign, hn', _, hr₃⟩
  · rw [hn, hn']
    refine .bind (.read (structBody_alike (d := d) hctx hr₂ hsymbol)) ?_
    rintro ⟨body, r₃⟩ ⟨_, r₃'⟩ ⟨rfl, hbody, hr₃⟩
    dsimp only
    rw [hr₃.spanFrom_eq]
    refine .pure ⟨rfl, ?_, hr₃⟩
    exact .plainNode (.after h₂ hbody) r₃.shorter rfl (hr₃.spanFrom hr.head_span) rfl rfl
  · rw [hassign, hn']
    have h₃ := h₂.trans (r₂.accept?_takes (by decide) hassign).spares
    refine .bind (.read (structAlias_alike (d := d) hctx hr₃ hsymbol)) ?_
    rintro ⟨body, r₄⟩ ⟨_, r₄'⟩ ⟨rfl, hbody, hr₄⟩
    dsimp only
    rw [hr₄.spanFrom_eq]
    refine .pure ⟨rfl, ?_, hr₄⟩
    exact .plainNode (.after h₃ hbody) r₄.shorter rfl (hr₄.spanFrom hr.head_span) rfl rfl

include hbelow

theorem enumMember_alike (internal : String) :
    S.Alike σ (S.Makes ctx.depth r .entry) (enumMember below ctx internal r h)
      (enumMember below' ctx.place internal r' h') := by
  unfold enumMember
  refine .lift (hr.takeNamed .identifier _) ?_
  rintro ⟨name, r₁⟩ ⟨_, r₁'⟩ hname ⟨rfl, _, hr₁⟩
  obtain ⟨rfl, h₁, _⟩ := Region.takeOr_takes (by decide) hname
  refine .lift (hr₁.leftTakeNamed .colon _) ?_
  rintro ⟨_, r₂⟩ ⟨_, r₂'⟩ hcolon ⟨_, _, hr₂⟩
  have h₂ := h₁.trans (r₁.takeNamed_takes (by decide) hcolon).spares
  dsimp only
  rw [hr₂.head_eq, hr₂.headIs_eq, hr₂.fail_eq]
  refine .guard (hr₂.fail _) fun _ => ?_
  refine .bind (.read (hbelow.unary _ _ hctx hr₂)) ?_
  rintro ⟨value, r₃⟩ ⟨_, r₃'⟩ ⟨rfl, hvalue, hr₃⟩
  dsimp only
  rw [hr₃.spanFrom_eq]
  refine .enter hctx hr.head_span (.pure ⟨rfl, ?_, hr₃⟩)
  exact .plainNode (.after h₂ hvalue) r₃.shorter rfl (hr₃.spanFrom hr.head_span) rfl rfl

theorem enumStmt_alike :
    S.Alike σ (S.Makes ctx.depth r .stmt) (enumStmt below ctx r h) (enumStmt below' ctx.place r' h') := by
  unfold enumStmt
  refine .lift (hr.take .kwEnum) ?_
  rintro ⟨keyword, r₁⟩ ⟨_, r₁'⟩ hkeyword ⟨rfl, _, hr₁⟩
  obtain ⟨rfl, h₁, _⟩ := Region.takeOr_takes (by decide) hkeyword
  refine .lift (hr₁.leftTakeNamed .identifier _) ?_
  rintro ⟨name, r₂⟩ ⟨_, r₂'⟩ hname ⟨rfl, known, hr₂⟩
  have h₂ := h₁.trans (r₁.takeNamed_takes (by decide) hname).spares
  refine .get fun reg => ?_
  refine .enter hctx (S.ofToken _ known.1) ?_
  refine .modifyGet fun scope => ?_
  have hscope := hctx.inScope scope
  refine .lift hr₂.leftCarveBraces ?_
  rintro ⟨inner, rest⟩ ⟨inner', rest'⟩ hcarve ⟨hinner, hrest⟩
  refine .bind (.leftItems .entry (fun _ _ _ _ _ hr₀ => enumMember_alike hbelow hscope hr₀ _) hinner) ?_
  rintro members _ ⟨rfl, _, hmembers, hdone⟩
  have inside := Lays.after h₂ (hmembers.carved (r₂.carveBraces_encloses hcarve) hdone)
  rw [hrest.spanFrom_eq]
  refine .pure ⟨rfl, ?_, hrest⟩
  exact .plainNode inside rest.shorter rfl (hrest.spanFrom hr.head_span) rfl rfl

end

/-! ### Variables -/

section

variable {l : Left r} {l' : Left r'} (hl : S.Twin l l')

include hctx hl

theorem annotation_alike :
    S.Alike σ (S.Steps fun given rest => (∀ g ∈ given, S.span g.2) ∧ l.Spares rest) ( annotation ctx l)
      ( annotation ctx.place l') := by
  unfold annotation
  rcases hl.leftAccept? .colon with ⟨hn, hn'⟩ | ⟨_, r₁, r₁', hcolon, hn', _, hr₁⟩
  · rw [hn, hn']
    exact .pure ⟨rfl, ⟨nofun, .refl l⟩, hl⟩
  · rw [hcolon, hn']
    have h₁ := (l.accept?_takes (by decide) hcolon).spares
    refine .bind (.read (type_alike hctx.source hctx.declaring hr₁)) ?_
    rintro ⟨type, r₂⟩ ⟨_, r₂'⟩ ⟨rfl, h₂, hr₂⟩
    dsimp only
    rw [hr₂.spanFrom_eq, hr₁.head_eq]
    refine .pure ⟨rfl, ⟨fun _ h => ?_, h₁.trans h₂⟩, hr₂⟩
    exact Option.some.inj h ▸ hr₂.spanFrom hr₁.head_span

include hbelow

theorem initialValue_alike :
    S.Alike σ (S.Steps fun value rest => Lays S ctx.depth l rest (value.toList.map .expr))
      (initialValue below ctx l h) (initialValue below' ctx.place l' h') := by
  unfold initialValue
  rcases hl.leftAccept? .assign with ⟨hn, hn'⟩ | ⟨_, r₁, r₁', hassign, hn', _, hr₁⟩
  · rw [hn, hn']
    exact .pure ⟨rfl, .nil (.refl l), hl⟩
  · rw [hassign, hn']
    have h₁ := (l.accept?_takes (by decide) hassign).spares
    refine .bind (.read (hbelow.expression _ _ hctx hr₁)) ?_
    rintro ⟨value, r₂⟩ ⟨_, r₂'⟩ ⟨rfl, hvalue, hr₂⟩
    exact .pure ⟨rfl, .after h₁ hvalue, hr₂⟩

end

theorem initialValue_eq_some {l : Left r} {value : Expr} {rest : Left r} {reg reg₁ : Registry}
    (hrun : (initialValue below ctx l h).run.run reg = (.ok (some value, rest), reg₁)) :
    ∃ t l₁ rest₁, l.accept? .assign = some (t, l₁) ∧
      (below.expression ctx l₁ (l₁.below h)).run.run reg = (.ok (value, rest₁), reg₁) := by
  unfold initialValue at hrun
  split at hrun
  · cases hrun
  · rename_i t l₁ hn
    rw [run_bind, Left.read, map_eq_pure_bind, run_bind] at hrun
    cases hp : (below.expression ctx l₁ (l₁.below h)).run.run reg with
    | mk x reg₂ =>
        rw [hp] at hrun
        cases x with
        | error d => cases hrun
        | ok found =>
            cases hrun
            exact ⟨t, l₁, found.2, hn, hp⟩

/-- The event that a declaration's check may fail with has taken place. -/
def Overlooks (S : Survey) (reg : Registry) (ctx : Context) (given : Option (Ty × Span)) (value : Option Expr) :
    Prop :=
  S.locates → ∀ declared span e d, given = some (declared, span) → value = some e →
    Typing.Setting.Undecided ⟨reg, ctx.scope, ctx.source⟩ declared e d → Misdeclares S.source S.tokens reg d

theorem variableType_alike {name : Token} {mutable : Bool} {given : Option (Ty × Span)} {value : Option Expr}
    {reg : Registry} (hctx : S.Meets σ ctx) (hname : S.span name.span)
    (hgiven : ∀ g ∈ given, S.span g.2) (hvalue : ∀ e ∈ value, S.span e.span)
    (hover : Overlooks S reg ctx given value) :
    S.Outcome σ (· = ·) ((variableType ctx name mutable given value : Parse Ty).run.run reg)
      ((variableType ctx.place name mutable given value : Tracked Ty).run.run ⟨reg, σ⟩) := by
  unfold variableType
  split
  · rename_i type span e
    refine .bind (A := (· = ·)) ?_ fun _ _ _ _ _ => .ok rfl
    change S.Outcome σ _ (Typing.Setting.checkDeclaration ⟨reg, ctx.scope, ctx.source⟩ type span e, reg)
      (Typing.Setting.checkDeclaration ⟨reg, ctx.scope, ctx.source⟩ type span e, ⟨reg, σ⟩)
    cases hx : Typing.Setting.checkDeclaration ⟨reg, ctx.scope, ctx.source⟩ type span e with
    | ok _ => exact .ok rfl
    | error d =>
        refine .error fun located => ?_
        rcases Typing.Setting.checkDeclaration_fails (hgiven _ rfl) (hvalue e rfl) d hx with hd | hd
        · exact .inl (.inl (hctx.source located ▸ hd))
        · exact .inr (hover located type span e d rfl rfl hd)
  · refine (?_ : S.Alike σ _ _ _) reg
    exact .guard (.located hctx.source hname) fun _ => .pure rfl
  · rename_i e
    have he := hvalue e rfl
    refine Survey.Alike.check hctx (fun _ => Typing.Setting.infer_fails he) (fun t => ?_) reg
    exact .guard (.located hctx.source he) fun _ => .pure rfl
  · exact Survey.Alike.fail hctx hname reg

/-- The keyword of the variable is the first token of `o`. -/
theorem variableDecl_alike {visibility : Visibility} (hbelow : below.Twins S below') (hctx : S.Meets σ ctx)
    (hr : S.Twin r r') (ho : o.Spares r) (hstart : S.span o.head.span) :
    S.Alike σ (S.Makes ctx.depth o fun decl => .stmt (.variable decl))
      (variableDecl below ctx visibility o.head r h) (variableDecl below' ctx.place visibility o.head r' h') := by
  unfold variableDecl
  refine .lift (hr.takeNamed .identifier _) ?_
  rintro ⟨name, r₁⟩ ⟨_, r₁'⟩ hname ⟨rfl, known, hr₁⟩ reg
  have hspan := S.ofToken _ known.1
  have h₁ := ho.trans (Region.takeOr_takes (by decide) hname).spares
  refine (annotation_alike hctx hr₁ reg).bind ?_
  rintro ⟨given, r₂⟩ ⟨_, r₂'⟩ reg₁ hannotation ⟨rfl, ⟨hgiven, h₂⟩, hr₂⟩
  refine (initialValue_alike hbelow hctx hr₂ reg₁).bind ?_
  rintro ⟨value, r₃⟩ ⟨_, r₃'⟩ reg₂ hinitial ⟨rfl, hvalue, hr₃⟩
  have hover : Overlooks S reg₂ ctx given value := by
    rintro located declared span e d rfl rfl undecided
    obtain ⟨t, l, rest, hassign, hrun⟩ := initialValue_eq_some hinitial
    rw [hbelow.tied] at hrun
    have source := hctx.source located
    exact ⟨ctx, r, r₁, r₂, l, declared, span, t, e, rest, reg, reg₁, source, hr₁.source located, hr₁.tokens,
      hannotation, hassign, hrun, source ▸ undecided⟩
  have hvalues : ∀ e ∈ value, S.span e.span := fun e he =>
    hvalue.span_of_mem (List.mem_map_of_mem (Option.mem_toList.mpr he))
  refine (variableType_alike hctx hspan hgiven hvalues hover).bind ?_
  rintro type _ reg₃ _ rfl
  refine Survey.Alike.get (fun reg₄ => ?_) reg₃
  dsimp only
  rw [hr₃.spanFrom_eq]
  refine .enter hctx hspan (.pure ⟨rfl, ?_, hr₃⟩)
  have hlt := Nat.lt_of_lt_of_le r₃.shorter ho.leaves.size_le
  exact .plainNode (.after (h₁.trans h₂) hvalue) hlt rfl (hr₃.spanFrom hstart) rfl rfl

end Grammar
end OnePass
