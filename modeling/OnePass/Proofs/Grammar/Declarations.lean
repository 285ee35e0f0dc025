import OnePass.Proofs.Grammar.Expressions

/-!
Declarations: what each production gives, and what it enters into the registry on the way.
-/

namespace OnePass

open Grammar

namespace Grammar

variable {rd : Reading} {n hi : Nat} {below : Below Parse n} {ctx : Context} {r : Region} {h : r.size ≤ n}
  {reg : Registry}

/-! ### Imports and modules -/

theorem importList_gives (hready : rd.Ready reg ctx.scope) (hr : r.Faces (rd.view reg) hi) :
    rd.Gives (importList ctx r) reg (rd.Reads hi fun _ _ => True) := by
  unfold importList
  refine .lift (fun _ => hr.carve) fun ⟨inner, rest⟩ ⟨mid, carved⟩ => ?_
  refine .bind (.items (P := fun _ _ => True) (fun _ _ _ _ h => h) ?_ carved.inner hready) ?_
  · intro r₀ _ _ _ hr₀ _
    refine .lift (fun _ => hr₀.takeOr) fun ⟨t, r₁⟩ ⟨_, _, hr₁⟩ => ?_
    exact .pure ⟨hr₁, trivial⟩
  · intro names _ _ ⟨hdone, _⟩
    refine .guard fun _ => ?_
    exact .pure ⟨carved.resumes rfl hdone, trivial⟩

theorem importItems_gives {l : Left r} {segments : List String} (hready : rd.Ready reg ctx.scope)
    (hl : l.Faces (rd.view reg) hi) :
    rd.Gives (importItems ctx segments l) reg (rd.Reads hi fun _ _ => True) := by
  unfold importItems
  split
  · rename_i r₁ hcolon
    refine .bind (.read (importList_gives hready (l.accept?_took hl hcolon).2.2)) ?_
    intro ⟨names, r₂⟩ _ _ ⟨hr₂, _⟩
    exact .pure ⟨hr₂, trivial⟩
  · refine .guard fun _ => ?_
    exact .pure ⟨hl, trivial⟩

theorem importStmt_gives (hready : rd.Ready reg ctx.scope) (hr : r.Faces (rd.view reg) hi) :
    rd.Gives (importStmt ctx r) reg (rd.Reads hi (ctx.Stmt rd)) := by
  unfold importStmt
  refine .lift (fun _ => hr.takeOr) fun ⟨keyword, r₁⟩ ⟨_, _, hr₁⟩ => ?_
  refine .guard fun hglobal => ?_
  refine .bind (path_gives hr₁) ?_
  rintro ⟨⟨segments, _⟩, r₂⟩ _ _ ⟨rfl, _, _, hr₂⟩
  refine .bind (importItems_gives hready hr₂) fun ⟨⟨module, names⟩, r₃⟩ reg₁ h₁ ⟨hr₃, _⟩ => ?_
  refine .lift (fun _ => r₃.take_took hr₃) fun ⟨_, r₄⟩ ⟨_, _, hr₄⟩ => ?_
  exact .pure ⟨hr₄, rfl, .intro (hready.mono h₁) .refl trivial (by simp [Node.children])
    (not_not.mp hglobal) trivial⟩

/-- A module that is opened by a word is a scope to go on in. -/
theorem openModule_ready {id outer : ScopeId} {name : String} (hready : rd.Ready reg id)
    (hdeclares : reg.declares id = true) (hname : Word rd.token name)
    (hallows : rd.Allows (r.front hi) reg outer) (houter : reg.declares outer = true)
    (hr : r.Faces (rd.view reg) hi) :
    rd.Reaches reg (reg.openModule id name).2 ∧ r.Faces (rd.view (reg.openModule id name).2) hi ∧
      rd.Ready (reg.openModule id name).2 (reg.openModule id name).1 ∧
      (reg.openModule id name).2.kind? (reg.openModule id name).1 = some .module := by
  obtain ⟨hreach, hr'⟩ := Reading.reaches_of_perform (.openModule id name) hr
    (fun _ h => Option.some.inj h ▸ hready.knows) ⟨hdeclares, hname, outer, hallows, houter⟩ rfl
  have wf := hreach.wellFormed hready.wellFormed
  obtain ⟨s, _, hs, hk, _⟩ :=
    wf.modules _ _ (Registry.mem_of_module? (reg.module?_openModule id name))
  exact ⟨hreach, hr', ⟨hready.reached.trans hreach, Registry.knows_iff.mpr ⟨s, hs⟩⟩,
    by simp [Registry.kind?, hs, hk]⟩

/-- The modules of a path, from a scope in the module that the first segments lead to from `outer`. -/
theorem openModules_gives (before : List String) {segments : List String} {outer scope : ScopeId}
    (hready : rd.Ready reg scope) (hdeclares : reg.declares scope = true)
    (hwords : ∀ s ∈ segments, Word rd.token s) (hne : segments ≠ []) (hknown : reg.Knows outer)
    (hallows : rd.Allows (r.front hi) reg outer) (houter : reg.declares outer = true)
    (hnames : ∀ s, reg.qualify scope s = Name.qualified (reg.modulePath outer ++ (before ++ [s])))
    (hr : r.Faces (rd.view reg) hi) :
    rd.Gives (openModules scope segments) reg fun id reg₁ =>
      rd.Ready reg₁ id ∧ reg₁.kind? id = some .module ∧ r.Faces (rd.view reg₁) hi ∧
        reg₁.module? (Name.qualified (reg₁.modulePath outer ++ (before ++ segments))) = some id := by
  induction segments generalizing before scope reg with
  | nil => exact absurd rfl hne
  | cons s segments ih =>
      unfold openModules
      obtain ⟨hreach, hr', hready', hkind⟩ :=
        openModule_ready hready hdeclares (hwords s List.mem_cons_self) hallows houter hr
      have wf := hready.wellFormed
      have houter' : (reg.openModule scope s).2.modulePath outer = reg.modulePath outer :=
        wf.modulePath_eq hreach.grows hknown
      have found : (reg.openModule scope s).2.module?
          (Name.qualified (reg.modulePath outer ++ (before ++ [s]))) = some (reg.openModule scope s).1 :=
        hnames s ▸ reg.module?_openModule scope s
      refine .bind (Q := fun id reg₁ => rd.Ready reg₁ id ∧ reg₁.kind? id = some .module ∧
        r.Faces (rd.view reg₁) hi ∧ reg₁.module?
          (Name.qualified (reg₁.modulePath outer ++ (before ++ [s]))) = some id) ⟨hreach, ?_⟩ ?_
      · rintro _ ⟨⟩
        exact ⟨hready', hkind, hr', houter' ▸ found⟩
      · intro id reg₁ h₁ ⟨hready₁, hkind₁, hr₁, found₁⟩
        cases segments with
        | nil => exact .pure ⟨hready₁, hkind₁, hr₁, found₁⟩
        | cons s' segments =>
            have more : before ++ s :: s' :: segments = (before ++ [s]) ++ s' :: segments := by simp
            rw [more]
            refine ih _ hready₁ ?_ (fun u hu => hwords u (List.mem_cons_of_mem _ hu)) (List.cons_ne_nil _ _)
              (h₁.grows.knows hknown) (Registry.Admits.later hallows wf h₁.grows)
              ((h₁.grows.declares_eq hknown).trans houter) ?_ hr₁
            · simp [Registry.declares, hkind₁, ScopeKind.declares]
            · intro u
              rw [hready₁.wellFormed.qualify_module (by simp) found₁, List.append_assoc]

theorem requireModule_gives {fault : Fault} {span : Span} {α : Type} {f : Unit → Parse α}
    {R : α → Registry → Prop} (hf : reg.declares ctx.scope = true → rd.Gives (f ()) reg R) :
    rd.Gives (ctx.requireModule fault span >>= f) reg R := by
  refine .bind (Q := fun _ reg₁ => reg₁ = reg ∧ reg.declares ctx.scope = true) ?_ ?_
  · unfold Context.requireModule
    refine .get ?_
    split
    · exact .throw
    · exact .pure ⟨rfl, by simp_all⟩
  · rintro _ _ _ ⟨rfl, hdeclares⟩
    exact hf hdeclares

/-- The tokens of a module's head stand in front of its block. -/
theorem heads_of_path {keyword : Token} {r₁ r₂ : Left r} {segments : List String} {V : View}
    (hr : r.Faces V hi) (hkeyword : r.accept? .kwModule = some (keyword, r₁))
    (hpath : ∃ ts, Spells ts segments ∧ r₁.pending = ts ++ r₂.pending) (hr₂ : r₂.Faces V hi) :
    Heads (V.tokens.take (r₂.front hi)) segments := by
  obtain ⟨run, hrun, ahead⟩ := hr.between hr₂ (r₂.front_le hi)
  obtain ⟨ts, hspells, hpending⟩ := hpath
  have all : Region.significant run ++ r₂.pending = (keyword :: ts) ++ r₂.pending := by
    calc Region.significant run ++ r₂.pending
        = r.pending := by
          rw [Region.pending, Region.pending, ahead]
          exact (List.filter_append _ _).symm
      _ = (keyword :: ts) ++ r₂.pending := by
          rw [Region.accept?_pending (by decide) hkeyword, hpending, List.cons_append]
  exact ⟨run, keyword, ts, hrun, List.append_cancel_right all, (Region.accept?_eq_some hkeyword).1, hspells⟩

theorem moduleStmt_gives (hbelow : below.Sound) (hready : rd.Ready reg ctx.scope)
    (hallows : rd.Allows (r.front hi) reg ctx.scope) (hr : r.Faces (rd.view reg) hi) :
    rd.Gives (moduleStmt below ctx r h) reg (rd.Reads hi (ctx.Stmt rd)) := by
  unfold moduleStmt
  refine .lift (fun _ => Region.accept?_of_takeOr) fun ⟨keyword, r₁⟩ hkeyword => ?_
  obtain ⟨_, _, hr₁⟩ := hr.accept? hkeyword
  refine requireModule_gives fun hdeclares => ?_
  refine .bind (path_gives hr₁) ?_
  rintro ⟨⟨segments, _⟩, r₂⟩ _ _ ⟨rfl, hpath, hspelt, hr₂⟩
  have heads : Heads _ segments := heads_of_path hr hkeyword hspelt hr₂
  have hallows₂ := hallows.mono (r₂.front_le hi)
  refine .bind (openModules_gives [] hready hdeclares hpath.2 hpath.1 hready.knows hallows₂
    hdeclares (fun _ => rfl) hr₂) fun scope reg₁ h₁ ⟨hscope, hkind, hr₂, found⟩ => ?_
  have hready₁ := hready.mono h₁
  have hdeclares₁ := (h₁.grows.declares_eq hready.knows).trans hdeclares
  have inside : rd.Allows (r₂.front hi) reg₁ scope :=
    .module (hallows₂.later hready h₁ (Nat.le_refl _)) hdeclares₁ heads found
  refine .bind (.read (block_gives { ctx with scope } hbelow hready₁ hscope inside hr₂)) ?_
  rintro ⟨b, r₃⟩ reg₂ h₂ ⟨hr₃, hb, hbuilt⟩
  have found₂ : reg₂.module? (Name.qualified (reg₂.modulePath ctx.scope ++ segments)) = some b.scope := by
    rw [hready₁.wellFormed.modulePath_eq h₂.grows hready₁.knows]
    exact hb ▸ h₂.grows.module?_eq_some found
  refine .pure ⟨hr₃, rfl, .intro (hready₁.mono h₂) .refl ⟨hpath.1, found₂⟩ (List.forall_mem_singleton.mpr hbuilt)
    ⟨?_, ?_⟩ trivial⟩
  · exact (h₂.grows.declares_eq hready₁.knows).trans hdeclares₁
  · exact hb ▸ (h₂.grows.kind?_eq hscope.knows).trans hkind

/-! ### Functions -/

theorem modifiers_gives (hr : r.Faces (rd.view reg) hi) :
    rd.Gives (modifiers r) reg fun out reg₁ => out.2.Faces (rd.view reg) hi ∧ reg₁ = reg := by
  unfold modifiers
  refine .loop (I := fun r _ reg₁ => r.Faces (rd.view reg) hi ∧ reg₁ = reg) ?_ ⟨hr, rfl⟩
  rintro r₀ _ traits _ ⟨hr₀, rfl⟩
  split
  · rename_i hextern
    exact .pure ⟨(hr₀.accept? hextern).2.2, rfl⟩
  · rename_i hasync
    exact .pure ⟨(hr₀.accept? hasync).2.2, rfl⟩
  · exact .pure ⟨hr₀, rfl⟩

theorem bodyOrNone_gives {isExtern : Bool} {routine : Enclosing} {outer : ScopeId}
    (hbelow : below.Sound) (houter : rd.Ready reg outer) (hready : rd.Ready reg ctx.scope)
    (hfresh : rd.Fresh reg ctx.scope) (hr : r.Faces (rd.view reg) hi) :
    rd.Gives (bodyOrNone below ctx isExtern routine r h) reg (rd.Reads hi fun body reg => ∀ b ∈ body,
      (reg.Inner b.scope ∧ (routine.result.isVoid = false → b.returns = true)) ∧
        rd.Built reg ⟨outer, false, some routine⟩ (.block b)) := by
  unfold bodyOrNone
  split
  · refine .lift (fun _ => hr.takeOr) fun ⟨_, rest⟩ ⟨_, _, hrest⟩ => ?_
    exact .pure ⟨hrest, by simp⟩
  · refine .bind (body_gives hbelow houter hready hfresh hr) fun ⟨b, rest⟩ reg₁ h₁ ⟨hrest, hb⟩ => ?_
    exact .pure ⟨hrest, fun b' hb' => Option.some.inj hb' ▸ hb⟩

theorem functionStmt_gives {visibility : Visibility} (hbelow : below.Sound)
    (hready : rd.Ready reg ctx.scope) (hr : r.Faces (rd.view reg) hi) :
    rd.Gives (functionStmt below ctx visibility r h) reg (rd.Reads hi (ctx.Stmt rd)) := by
  unfold functionStmt
  refine .bind (modifiers_gives hr) ?_
  rintro ⟨traits, r₁⟩ _ _ ⟨hr₁, rfl⟩
  refine .lift (fun _ => r₁.take_took hr₁) fun ⟨_, r₂⟩ ⟨_, _, hr₂⟩ => ?_
  refine requireModule_gives fun hdeclares => ?_
  refine .lift (fun _ => r₂.takeNamed_took hr₂) fun ⟨name, r₃⟩ ⟨hk, hname, hr₃⟩ => ?_
  refine .openScope hready (.inr rfl) hr₃ fun scope reg₁ h₁ hscope hfresh hr₃ => ?_
  refine .lift (fun _ => r₃.carveParens_faces hr₃)
    fun ⟨header, r₄⟩ ⟨mid, hheader, ⟨paren, hparen, hopen⟩, hresumes⟩ => ?_
  refine .bind (parameters_gives hscope (fun _ _ => hfresh.allows) hheader ⟨paren, hparen, .inl hopen⟩)
    fun ⟨params, isVariadic⟩ reg₂ h₂ ⟨hdone, hparams⟩ => ?_
  have hr₄ : r₄.Faces (rd.view reg₂) hi := hresumes rfl hdone
  refine .lift (fun _ => r₄.takeNamed_took hr₄) fun ⟨_, r₅⟩ ⟨_, _, hr₅⟩ => ?_
  have hready₂ := hready.mono (h₁.trans h₂)
  refine .bind (.read (type_gives hready₂ hr₅)) fun ⟨result, r₆⟩ reg₃ h₃ ⟨hr₆, hresult⟩ => ?_
  refine .get ?_
  have types : ∀ t ∈ params.map (·.type), t.Written (Named rd.token) := by
    intro t ht
    obtain ⟨p, hp, rfl⟩ := List.mem_map.mp ht
    exact hparams p hp
  refine .enter (.defineFunction _) rfl (by nofun) hr₆
    ⟨.inl ⟨ctx.scope, name.lexeme, rd.word hname hk, rfl, rfl⟩, types, hresult⟩ fun reg₄ h₄ hr₆ => ?_
  have hready₄ := hready₂.mono (h₃.trans h₄)
  have hgrown := h₂.trans (h₃.trans h₄)
  refine .bind (.read (bodyOrNone_gives hbelow hready₄ (hscope.mono hgrown) (hfresh.mono hgrown) hr₆)) ?_
  rintro ⟨b, r₇⟩ reg₅ h₅ ⟨hr₇, hb⟩
  have all := h₁.trans (h₂.trans (h₃.trans (h₄.trans h₅)))
  have qualified := (hready₂.mono h₃).qualify_eq (h₄.trans h₅) name.lexeme
  refine .pure ⟨hr₇, rfl, .intro (hready₄.mono h₅) .refl ⟨⟨hparams, hresult⟩, qualified ▸ rfl⟩ ?_
    ⟨(all.grows.declares_eq hready.knows).trans hdeclares, fun b' hb' => (hb b' hb').1⟩ trivial⟩
  intro child hc
  obtain ⟨b', hb', rfl⟩ := List.mem_map.mp hc
  exact (hb b' (Option.mem_toList.mp hb')).2

/-! ### Structs and enums -/

theorem fieldEnd_faces {V : View} {l rest : Left r} (hl : l.Faces V hi) (he : fieldEnd l = .ok rest) :
    rest.Faces V hi := by
  unfold fieldEnd at he
  split at he
  · rename_i hsemi
    exact Except.ok.inj he ▸ (l.accept?_took hl hsemi).2.2
  · rename_i hcomma
    exact Except.ok.inj he ▸ (l.accept?_took hl hcomma).2.2
  · split at he
    · cases he
    · exact Except.ok.inj he ▸ hl

/-- A name that may be in the type of a field: that of the struct itself, or of a type that is there. -/
def FieldName (rd : Reading) (internal : String) (reg : Registry) (name : String) : Prop :=
  Named rd.token name ∧ (name = internal ∨ reg.HasType name)

theorem FieldName.mono {internal name : String} {reg₁ : Registry} (h : FieldName rd internal reg name)
    (hreach : rd.Reaches reg reg₁) : FieldName rd internal reg₁ name :=
  ⟨h.1, h.2.imp_right fun htype => htype.mono hreach.grows⟩

theorem finds_fieldName {internal : String} (hready : rd.Ready reg ctx.scope) :
    TypeSetting.Finds ⟨reg, ctx.source, ctx.scope, some internal⟩ rd.token (FieldName rd internal reg) := by
  intro segments name hpath hfound
  refine ⟨TypeSetting.finds_named hready.tidy segments name hpath hfound, ?_⟩
  rcases Option.or_eq_some_iff.mp hfound with hs | ⟨_, hm⟩
  · exact (hasType_of_structName? hs).imp_left fun h => (Option.some.inj h).symm
  · exact .inr (hasType_of_markerName? hm)

theorem structField_gives {internal : String} {before : List StructField}
    (hready : rd.Ready reg ctx.scope) (hr : r.Faces (rd.view reg) hi) :
    rd.Gives (structField ctx internal before r) reg (rd.Reads hi fun f reg =>
      f.name ∉ before.map (·.name) ∧ f.type.Written (FieldName rd internal reg)) := by
  unfold structField
  refine .lift (fun _ => hr.takeOr) fun ⟨name, r₁⟩ ⟨_, _, hr₁⟩ => ?_
  refine .lift (fun _ => r₁.takeNamed_took hr₁) fun ⟨_, r₂⟩ ⟨_, _, hr₂⟩ => ?_
  refine .bind (.read (type_gives_found (finds_fieldName hready) hr₂)) fun ⟨type, r₃⟩ reg₁ h₁ ⟨hr₃, htype⟩ => ?_
  refine .lift (fun _ => fieldEnd_faces hr₃) fun r₄ hr₄ => ?_
  refine .guard fun hnew => ?_
  exact .pure ⟨hr₄, by simpa using hnew, htype⟩

theorem structFields_gives {internal : String} (hready : rd.Ready reg ctx.scope)
    (hr : r.Faces (rd.view reg) hi) :
    rd.Gives (structFields ctx internal r) reg fun fields reg₁ => rd.Leads hi rd.start reg₁ ∧
      (fields.map (·.name)).Nodup ∧ ∀ f ∈ fields, f.type.Written (FieldName rd internal reg₁) := by
  unfold structFields
  refine .bind (.loop (I := fun r fields reg => r.Faces (rd.view reg) hi ∧ rd.Ready reg ctx.scope ∧
    (fields.map (·.name)).Nodup ∧ ∀ f ∈ fields, f.type.Written (FieldName rd internal reg)) ?_
    ⟨hr, hready, by simp, by simp⟩) ?_
  · rintro r₀ _ before reg ⟨hr₀, hready, hnodup, hbefore⟩
    split
    · exact .pure ⟨hr₀, hready, hnodup, hbefore⟩
    · refine .bind (structField_gives hready hr₀) fun ⟨f, r₁⟩ reg₁ h₁ ⟨hr₁, hnew, hf⟩ => ?_
      refine .pure ⟨hr₁, hready.mono h₁, ?_, fun g hg => ?_⟩
      · rw [List.map_append]
        refine List.nodup_append.mpr ⟨hnodup, by simp, ?_⟩
        rintro _ hname _ hf rfl
        obtain rfl := List.mem_singleton.mp hf
        exact hnew hname
      · rcases List.mem_append.mp hg with hg | hg
        · exact (hbefore g hg).imp fun _ hname => hname.mono h₁
        · exact List.mem_singleton.mp hg ▸ hf
  · exact fun ⟨fields, _⟩ _ _ ⟨hrest, _, hfields⟩ => .pure ⟨hrest.done, hfields⟩

theorem structAlias_gives {symbol : Symbol} (hready : rd.Ready reg ctx.scope) (hr : r.Faces (rd.view reg) hi)
    (hname : Word rd.token symbol.name) (hinternal : symbol.internal = reg.qualify ctx.scope symbol.name) :
    rd.Gives (structAlias ctx symbol r) reg
      (rd.Reads hi fun body reg => rd.Introduces reg ctx.scope symbol body) := by
  unfold structAlias
  refine .lift (path_yields hr) fun ⟨⟨segments, span⟩, r₁⟩ ⟨_, hpath, _, _, hr₁⟩ => ?_
  refine .lift (fun _ => r₁.take_took hr₁) fun ⟨_, r₂⟩ ⟨_, _, hr₂⟩ => ?_
  refine .get ?_
  refine .entered (.defineStruct ctx.scope _) rfl (fun _ h => Option.some.inj h ▸ hready.knows) hr₂
    ⟨hname, hinternal, by nofun⟩ fun reg₁ after h₁ hr₂ => ?_
  exact .pure ⟨hr₂, reg, _, hready.reached, hready.knows, after, segments, span, hpath, rfl, rfl⟩

theorem structBody_gives {symbol : Symbol} (hready : rd.Ready reg ctx.scope) (hr : r.Faces (rd.view reg) hi)
    (hname : Word rd.token symbol.name) (hinternal : symbol.internal = reg.qualify ctx.scope symbol.name) :
    rd.Gives (structBody ctx symbol r) reg
      (rd.Reads hi fun body reg => rd.Introduces reg ctx.scope symbol body) := by
  unfold structBody
  refine .lift (fun _ => hr.carve) fun ⟨inner, rest⟩ ⟨mid, carved⟩ => ?_
  refine .bind (structFields_gives hready carved.inner) fun fields reg₁ h₁ ⟨hdone, hfields⟩ => ?_
  refine .guard fun _ => ?_
  have hready₁ := hready.mono h₁
  have hrest : rest.Faces (rd.view reg₁) hi := carved.resumes rfl hdone
  refine .entered (.defineStruct ctx.scope _) rfl (fun _ h => Option.some.inj h ▸ hready₁.knows) hrest
    ⟨hname, hinternal.trans (hready.qualify_eq h₁ _).symm, ?_⟩ fun reg₂ after h₂ hrest => ?_
  · rintro _ ⟨⟩
    refine ⟨by rw [List.map_map]; exact hfields.1, fun f hf => ?_⟩
    obtain ⟨g, hg, rfl⟩ := List.mem_map.mp hf
    have htype := hfields.2 g hg
    exact ⟨htype.imp fun _ h => h.1, (htype.imp fun _ h => h.2).mentions⟩
  · exact .pure ⟨hrest, reg₁, _, hready₁.reached, hready₁.knows, after, rfl⟩

theorem structStmt_gives {visibility : Visibility} (hready : rd.Ready reg ctx.scope)
    (hr : r.Faces (rd.view reg) hi) :
    rd.Gives (structStmt ctx visibility r) reg (rd.Reads hi (ctx.Stmt rd)) := by
  unfold structStmt
  refine .lift (fun _ => hr.takeOr) fun ⟨keyword, r₁⟩ ⟨_, _, hr₁⟩ => ?_
  refine requireModule_gives fun hdeclares => ?_
  refine .lift (fun _ => r₁.takeNamed_took hr₁) fun ⟨name, r₂⟩ ⟨hk, hname, hr₂⟩ => ?_
  refine .get ?_
  have built {d : StructDecl} {reg₁ : Registry} (h₁ : rd.Reaches reg reg₁)
      (hd : d.internal = reg.qualify ctx.scope d.name)
      (introduced : rd.Introduces reg₁ ctx.scope ⟨d.name, d.internal, name.span⟩ d.body) :
      ctx.Stmt rd (.struct d) reg₁ :=
    ⟨rfl, .intro (hready.mono h₁) .refl ⟨hd.trans (hready.qualify_eq h₁ _).symm, name.span, introduced⟩
      (by simp [Node.children]) ((h₁.grows.declares_eq hready.knows).trans hdeclares) trivial⟩
  dsimp only
  split
  · rename_i r₃ hassign
    refine .bind (.read (structAlias_gives hready (r₂.accept?_took hr₂ hassign).2.2
      (rd.word hname hk) rfl)) ?_
    rintro ⟨body, r₄⟩ reg₁ h₁ ⟨hr₄, introduced⟩
    exact .pure ⟨hr₄, built h₁ rfl introduced⟩
  · refine .bind (.read (structBody_gives hready hr₂ (rd.word hname hk) rfl)) ?_
    rintro ⟨body, r₄⟩ reg₁ h₁ ⟨hr₄, introduced⟩
    exact .pure ⟨hr₄, built h₁ rfl introduced⟩

theorem enumMember_gives {internal : String} (hbelow : below.Sound) (hready : rd.Ready reg ctx.scope)
    (hfresh : ∀ p reg, rd.Allows p reg ctx.scope) (hr : r.Faces (rd.view reg) hi)
    (hnamed : Named rd.token internal) :
    rd.Gives (enumMember below ctx internal r h) reg (rd.Reads hi (ctx.Entry rd)) := by
  unfold enumMember
  refine .lift (fun _ => hr.takeOr) fun ⟨name, r₁⟩ ⟨hk, hname, hr₁⟩ => ?_
  refine .lift (fun _ => r₁.takeNamed_took hr₁) fun ⟨_, r₂⟩ ⟨_, _, hr₂⟩ => ?_
  refine .guard fun _ => ?_
  refine .bind (.read (hbelow.unary ctx hready hr₂)) fun ⟨value, r₃⟩ reg₁ h₁ ⟨hr₃, hvalue⟩ => ?_
  have hready₁ := hready.mono h₁
  refine .enter (.defineMarker ctx.scope _ .enumMember) rfl
    (fun _ h => Option.some.inj h ▸ hready₁.knows) hr₃
    ⟨hfresh _ _, rd.word hname hk, .inr ⟨rfl, internal, hnamed, rfl⟩⟩ fun reg₂ h₂ hr₃ => ?_
  exact .pure ⟨hr₃, Context.Expr.mono hvalue h₂⟩

theorem enumStmt_gives (hbelow : below.Sound) (hready : rd.Ready reg ctx.scope)
    (hallows : rd.Allows (r.front hi) reg ctx.scope) (hr : r.Faces (rd.view reg) hi) :
    rd.Gives (enumStmt below ctx r h) reg (rd.Reads hi (ctx.Stmt rd)) := by
  unfold enumStmt
  refine .lift (fun _ => hr.takeOr) fun ⟨keyword, r₁⟩ ⟨_, _, hr₁⟩ => ?_
  refine .lift (fun _ => r₁.takeNamed_took hr₁) fun ⟨name, r₂⟩ ⟨hk, hname, hr₂⟩ => ?_
  refine .get ?_
  have word := rd.word hname hk
  have named : Named rd.token (reg.qualify ctx.scope name.lexeme) := hready.tidy.qualify (.word word)
  refine .enter (.defineMarker ctx.scope _ .enumType) rfl (fun _ h => Option.some.inj h ▸ hready.knows) hr₂
    ⟨hallows.mono (r₂.front_le hi), word, .inl ⟨rfl, rfl⟩⟩ fun reg₁ h₁ hr₂ => ?_
  have hready₁ := hready.mono h₁
  refine .openScope hready₁ (.inl rfl) hr₂ fun scope reg₂ h₂ hscope hfresh hr₂ => ?_
  refine .lift (fun _ => r₂.carveBraces_faces hr₂) fun ⟨inner, rest⟩ ⟨mid, hinner, hresumes⟩ => ?_
  refine .bind (.leftItems (P := ({ ctx with scope } : Context).Entry rd)
    (fun _ _ _ h he => Context.Expr.mono he h)
    (fun r₀ _ _ _ hr₀ hready => enumMember_gives hbelow hready (fun _ _ => hfresh.allows) hr₀ named)
    hinner hscope) ?_
  intro members reg₃ h₃ ⟨hdone, _, hmembers⟩
  refine .pure ⟨hresumes rfl hdone, rfl, .intro (hready₁.mono (h₂.trans h₃)) .refl trivial ?_ trivial trivial⟩
  intro child hc
  obtain ⟨m, hm, rfl⟩ := List.mem_map.mp hc
  exact hmembers m hm

/-! ### Variables -/

/-- The next token is of the kind asked for. -/
def NextIs (r : Region) (k : Token.Kind) : Prop := ∃ t, r.pending.head? = some t ∧ t.kind = k

theorem nextIs_of_accept? {l : Left r} {k : Token.Kind} {s : Step r Token} (hk : k ≠ .comment)
    (ha : l.accept? k = some s) : NextIs l k := by
  obtain ⟨s', hs, rfl⟩ := Option.map_eq_some_iff.mp ha
  refine ⟨s'.1, ?_, (Region.accept?_eq_some hs).1⟩
  rw [Region.accept?_pending hk hs]
  rfl

/-- A type is read behind a colon; otherwise nothing is. -/
theorem annotation_gives {l : Left r} (hready : rd.Ready reg ctx.scope) (hl : l.Faces (rd.view reg) hi) :
    rd.Gives ( annotation ctx l) reg fun out reg =>
      rd.Reads hi (fun given _ => ∀ g ∈ given, g.1.Written (Named rd.token)) out reg ∧
        (out.1.isSome = true → NextIs l .colon) ∧ (out.1 = none → out.2 = l) := by
  unfold annotation
  split
  · exact .pure ⟨⟨hl, by simp⟩, nofun, fun _ => rfl⟩
  · rename_i r₁ hcolon
    refine .bind (.read (type_gives hready (l.accept?_took hl hcolon).2.2)) ?_
    intro ⟨type, r₂⟩ reg₁ h₁ ⟨hr₂, htype⟩
    exact .pure ⟨⟨hr₂, fun g hg => Option.some.inj hg ▸ htype⟩,
      fun _ => nextIs_of_accept? (by decide) hcolon, nofun⟩

theorem initialValue_gives {l : Left r} (hbelow : below.Sound) (hready : rd.Ready reg ctx.scope)
    (hl : l.Faces (rd.view reg) hi) :
    rd.Gives (initialValue below ctx l h) reg
      (rd.Reads hi fun value reg => ∀ e ∈ value, ctx.Expr rd e reg ∧ NextIs l .assign) := by
  unfold initialValue
  split
  · exact .pure ⟨hl, by simp⟩
  · rename_i r₁ hassign
    refine .bind (.read (hbelow.expression ctx hready (l.accept?_took hl hassign).2.2)) ?_
    intro ⟨value, r₂⟩ reg₁ h₁ ⟨hr₂, hvalue⟩
    exact .pure ⟨hr₂, fun e he => Option.some.inj he ▸ ⟨hvalue, nextIs_of_accept? (by decide) hassign⟩⟩

/-- The type of a variable is from where `l`, which stands behind the name, says. -/
theorem variableType_gives {name : Token} {mutable : Bool} {given : Option (Ty × Span)}
    {value : Option Expr} {l : Left r} (hgiven : ∀ g ∈ given, g.1.Written (Named rd.token))
    (hcolon : given.isSome = true → NextIs l .colon)
    (hassign : given = none → value.isSome = true → NextIs l .assign) :
    rd.Gives (variableType ctx name mutable given value) reg fun type reg₁ =>
      reg₁ = reg ∧ ∃ mark, l.pending.head? = some mark ∧ rd.Types reg ctx.scope mark.kind type value := by
  unfold variableType
  split
  · rename_i type span value
    refine .check fun _ hcheck => ?_
    obtain ⟨mark, hmark, hk⟩ := hcolon rfl
    exact .pure ⟨rfl, mark, hmark, .inl ⟨hk, hgiven _ rfl, ctx.source, span, hcheck⟩⟩
  · refine .guard fun _ => ?_
    obtain ⟨mark, hmark, hk⟩ := hcolon rfl
    exact .pure ⟨rfl, mark, hmark, hk, hgiven _ rfl⟩
  · refine .check fun t ht => ?_
    refine .guard fun hinformative => ?_
    obtain ⟨mark, hmark, hk⟩ := hassign rfl rfl
    exact .pure ⟨rfl, mark, hmark,
      .inr ⟨hk, t, Typing.locate_eq_ok.mp ht, by simpa using hinformative, rfl⟩⟩
  · exact .throw

section Types

variable {mark : Token.Kind} {type : Ty} {value : Option Expr}

/-- The type that is found for a variable is written, or made of what the initial value is. -/
theorem types_makes (hvalue : ∀ e ∈ value, ctx.Expr rd e reg) (ht : rd.Types reg ctx.scope mark type value) :
    reg.Makes rd.token type := by
  intro P hP hwritten hreg
  cases value with
  | none => exact hwritten type ht.2
  | some value =>
      rcases ht with ⟨_, ht, _⟩ | ⟨_, t, ht, _, rfl⟩
      · exact hwritten type ht
      · exact hP.setFlags.mpr (Typing.infer_hereditary hP hreg ((hvalue value rfl).brings hP hwritten) ht)

/-- The type that is found for a variable does not say how the variable is bound. -/
theorem types_isMutable {scope : ScopeId} (ht : rd.Types reg scope mark type value) :
    type.isMutable = false := by
  cases value with
  | none => exact ht.2.isMutable_eq
  | some value =>
      rcases ht with ⟨_, ht, _⟩ | ⟨_, t, _, _, rfl⟩
      · exact ht.isMutable_eq
      · exact t.isMutable_rvalue

end Types

/-- The word that declares a variable. -/
def Declares (keyword : Token) : Prop := keyword.kind = .kwLet ∨ keyword.kind = .kwConst

theorem Declares.introduces {keyword : Token} {symbol : Symbol} {type : Ty} {isGlobal : Bool}
    (hk : Declares keyword) (ht : type.isMutable = false) :
    keyword.Introduces ⟨symbol, type.withFlags { mutable := keyword.kind == .kwLet, global := isGlobal }⟩ := by
  rcases hk with hk | hk <;> simp [Token.Introduces, Ty.isMutable_withFlags, ht, hk]

theorem Declares.before_next? {t : Token} {l : Left r} (hk : Declares t) (hr : r.Faces (rd.view reg) hi)
    (hn : r.next? = some (t, l)) : tokenBefore? rd.tokens (l.front hi) = some t := by
  apply hr.before_next? hn
  rcases hk with hk | hk <;> simp [Token.isComment, hk]

theorem behind_name {V : View} {name mark : Token} {r₁ : Left r} (hr : r.Faces V hi)
    (hname : r.accept? .identifier = some (name, r₁)) (hmark : r₁.pending.head? = some mark) :
    [name, mark] <:+: Region.significant V.tokens := by
  obtain ⟨rest, hrest⟩ := List.head?_eq_some_iff.mp hmark
  have pending : r.pending = [name, mark] ++ rest := by
    rw [Region.accept?_pending (by decide) hname, hrest]
    rfl
  have ahead : r.ahead <:+: V.tokens := hr.window.isInfix.trans (List.take_prefix hi V.tokens).isInfix
  exact (pending ▸ List.prefix_append _ _ : [name, mark] <+: r.pending).isInfix.trans (ahead.filter _)

theorem variableDecl_gives {visibility : Visibility} {keyword : Token} (hbelow : below.Sound)
    (hready : rd.Ready reg ctx.scope) (hallows : rd.Allows (r.front hi) reg ctx.scope)
    (hr : r.Faces (rd.view reg) hi) (hk : Declares keyword)
    (hbefore : tokenBefore? rd.tokens (r.front hi) = some keyword) :
    rd.Gives (variableDecl below ctx visibility keyword r h) reg
      (rd.Reads hi fun d reg => rd.Built reg ctx.site (.stmt (.variable d))) := by
  unfold variableDecl
  refine .lift (fun _ => Region.accept?_of_takeOr) fun ⟨name, r₁⟩ htake => ?_
  obtain ⟨hidentifier, hname, hr₁⟩ := hr.accept? htake
  refine .bind (annotation_gives hready hr₁) ?_
  intro ⟨given, r₂⟩ reg₁ h₁ ⟨⟨hr₂, hgiven⟩, hcolon, hnone⟩
  refine .bind (initialValue_gives hbelow (hready.mono h₁) hr₂) ?_
  intro ⟨value, r₃⟩ reg₂ h₂ ⟨hr₃, hvalue⟩
  have hassign (hg : given = none) (hv : value.isSome = true) : NextIs r₁ .assign := by
    obtain ⟨e, rfl⟩ := Option.isSome_iff_exists.mp hv
    exact hnone hg ▸ (hvalue e rfl).2
  refine .bind (variableType_gives hgiven hcolon hassign) ?_
  rintro type _ _ ⟨rfl, mark, hmark, htype⟩
  refine .get ?_
  rename_i reg₂ _
  have hready₂ := hready.mono (h₁.trans h₂)
  refine .entered (.defineVariable ctx.scope _) rfl (fun _ h => Option.some.inj h ▸ hready₂.knows) hr₃
    ⟨hallows.later hready (h₁.trans h₂) (r₃.front_le hi), ⟨_, r₃.front_lt hr, ?_⟩, ?_, ?_⟩
    fun reg₃ after h₃ hr₃ => ?_
  · exact ⟨name, keyword, hname, hidentifier, rfl, rfl, hbefore, hk.introduces (types_isMutable htype)⟩
  · dsimp only
    split
    · exact .inr ⟨‹_›, rfl⟩
    · exact .inl rfl
  · intro P hP hwritten hreg
    exact hP.setFlags.mpr (types_makes (fun e he => (hvalue e he).1) htype P hP hwritten hreg)
  · refine .pure ⟨hr₃, .intro (hready₂.mono h₃) .refl ⟨⟨rfl, ?_⟩, reg₂, type, name, mark, hready₂, rfl,
      after, behind_name hr htake hmark, htype⟩ ?_ trivial trivial⟩
    · simp only [Stmt.Titled, Stmt.GoesBy, Context.site, h₃.grows.declares_eq hready₂.knows,
        hready₂.qualify_eq h₃]
    · intro child hc
      obtain ⟨e, he, rfl⟩ := List.mem_map.mp hc
      exact (hvalue e (Option.mem_toList.mp he)).1.mono h₃

end Grammar
end OnePass
