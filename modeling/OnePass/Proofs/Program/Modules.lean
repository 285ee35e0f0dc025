import OnePass.Proofs.Layout.Basic
import OnePass.Proofs.Program.Placement
import OnePass.Proofs.Registry.Modules

/-!
Modules keep apart as far as their joined names do. The scope of a module and the name of what is declared in it
depend on the segments of the path only through the name they are joined to: a segment with a separator in it
is taken for two. With plain segments a module has a scope of its own, which lies in the scope that
the module is declared in.
-/

namespace OnePass

open Grammar

/-! ### Reading keeps modules where their paths lead -/

theorem Reading.Leads.anchored {rd : Reading} {p : Nat} {reg reg₁ : Registry} (h : rd.Leads p reg reg₁)
    (wf : reg.WellFormed) (ha : reg.Anchored) : reg₁.Anchored := by
  induction h with
  | refl => exact ha
  | @step reg₁ _ op before _ enters after ih =>
      have wf₁ := before.wellFormed wf
      have hx := Registry.extends_of_perform after
      cases op with
      | nameAnonymous =>
          cases after
          exact ih.mono wf₁ hx fun _ => rfl
      | openScope parent kind =>
          cases after
          have inner : kind.declares = false := by rcases enters with rfl | rfl <;> rfl
          exact ih.mono wf₁ hx fun id => reg₁.declares_openScope parent id inner none
      | openModule parent name =>
          cases after
          exact ih.openModule wf₁ enters.1 name
      | defineVariable | defineFunction | defineStruct | defineMarker =>
          rw [Registry.enter_of_perform rfl after] at hx ⊢
          exact ih.mono wf₁ hx fun id => reg₁.declares_enter _ id _

/-! ### Titles -/

namespace Stmt

/-- The name that a function, a struct or a variable is declared under. -/
def name? : Stmt → Option String
  | .function f => some f.name
  | .struct d => some d.name
  | .variable d => some d.name
  | _ => none

namespace Titled

variable {reg reg' : Registry} {scope : ScopeId} {s s' : Stmt}

theorem mono (h : s.Titled reg scope) (wf : reg.WellFormed) (hx : reg.Extends reg') (hk : reg.Knows scope) :
    s.Titled reg' scope := by
  have qualify := wf.qualify_eq hx hk
  cases s with
  | «module» =>
      refine ⟨h.1, ?_⟩
      rw [wf.modulePath_eq hx hk]
      exact hx.module?_eq_some h.2
  | function | struct =>
      rw [Titled, qualify]
      exact h
  | «variable» =>
      rw [Titled, qualify, hx.declares_eq hk]
      exact h
  | package | imports | enum | cond | «while» | «for» | «return» | «break» | «continue» | block | expr => trivial

theorem of_mapCalls {g : Call → Except Diagnostic Call} (h : s.Titled reg scope) (hm : s.mapCalls g = .ok s') :
    s'.Titled reg scope := by
  cases Stmt.becomes hm with
  | «module» body =>
      obtain ⟨_, rfl, _⟩ := Block.mapCalls_eq_ok body
      exact h
  | function routine =>
      obtain ⟨_, rfl, _⟩ := Routine.mapCalls_eq_ok routine
      exact h
  | «variable» decl =>
      obtain ⟨_, rfl, _⟩ := VarDecl.mapCalls_eq_ok decl
      exact h
  | package | imports | struct | enum | cond | «while» | «for» | «return» | «break» | «continue» | block
  | expr => exact h

theorem goesBy (h : s.Titled reg scope) (hd : reg.declares scope = true) {name : String}
    (hname : s.name? = some name) : s.GoesBy (reg.qualify scope name) := by
  cases s with
  | function | struct =>
      obtain rfl := Option.some.inj hname
      exact h
  | «variable» =>
      obtain rfl := Option.some.inj hname
      rw [Titled, if_pos hd] at h
      exact h
  | package | imports | «module» | enum | cond | «while» | «for» | «return» | «break» | «continue» | block
  | expr => cases hname

end Titled
end Stmt

theorem Reading.Settled.titled {rd : Reading} {reg : Registry} {source : Source} {site : Site} {s : Stmt}
    (h : rd.Settled reg source site (.stmt s)) : s.Titled reg site.scope := by
  obtain ⟨n₀, reg₀, wf₀, _, hx, hk, hf, hn⟩ := h.formed
  obtain ⟨s₀, rfl, hs⟩ := Node.stmt_of_mapCalls hn
  have formed : s₀.Titled reg₀ site.scope := by
    cases s₀ with
    | «module» => exact hf
    | struct => exact hf.1
    | function => exact hf.2
    | «variable» => exact hf.1.2
    | package | imports | enum | cond | «while» | «for» | «return» | «break» | «continue» | block
    | expr => trivial
  exact (formed.mono wf₀ hx hk).of_mapCalls hs

/-! ### Paths in a tree -/

/-- What a part adds to the path of what is in it. -/
def Node.segments : Node → List String
  | .stmt (.module path ..) => path
  | .block _ | .stmt _ | .expr _ => []

/-- The path through the modules among the parts around a place, the innermost of which comes first. -/
def pathThrough (around : List Node) : List String := around.reverse.flatMap Node.segments

theorem pathThrough_cons (n : Node) (around : List Node) :
    pathThrough (n :: around) = pathThrough around ++ n.segments := by
  simp [pathThrough]

/-- A module is declared in a scope that a path leads to, with a path of its own, and read in another scope. -/
inductive Program.Opens (p : Program) : ScopeId → List String → List String → ScopeId → Prop where
  | intro {around : List Node} {site : Site} {path : List String} {body : Block} {span : Span}
      (trail : Trail (.block p.body) around site (.stmt (.module path body span))) :
      Opens p site.scope (pathThrough around) path body.scope

/-- A function, a struct or a variable is declared in a scope that a path leads to, under a name. -/
inductive Program.Names (p : Program) : ScopeId → List String → String → Stmt → Prop where
  | intro {around : List Node} {site : Site} {s : Stmt} {name : String}
      (trail : Trail (.block p.body) around site (.stmt s)) (named : s.name? = some name) :
      Names p site.scope (pathThrough around) name s

/-- What is known of the path to a place: it leads to the scope there, unless that is an inner one. -/
def Node.Located (reg : Registry) (around : List Node) (site : Site) : Node → Prop
  | .block b => reg.Locates (pathThrough around) b.scope ∨ reg.Inner b.scope
  | .stmt _ => reg.Locates (pathThrough around) site.scope ∨ reg.Inner site.scope
  | .expr _ => True

theorem Registry.locates_of_declares {reg : Registry} {segments : List String} {scope : ScopeId}
    (h : reg.Locates segments scope ∨ reg.Inner scope) (hd : reg.declares scope = true) :
    reg.Locates segments scope := by
  refine h.resolve_right fun hinner => ?_
  rw [hinner.2] at hd
  cases hd

/-- The path of a module leads to its scope. -/
theorem Stmt.Titled.locates {reg : Registry} {segments path : List String} {scope : ScopeId} {body : Block}
    {span : Span} (h : (Stmt.module path body span).Titled reg scope) (wf : reg.WellFormed)
    (houter : reg.Locates segments scope) : reg.Locates (segments ++ path) body.scope := by
  obtain ⟨hne, found⟩ := h
  rw [houter.qualified_append wf hne] at found
  exact .inr ⟨by simp [hne], found⟩

/-- Going into a tree, the path follows the scopes. -/
theorem Trail.located {reg : Registry} {body : Block} {around : List Node} {site : Site} {n : Node}
    (wf : reg.WellFormed) (hglobal : body.scope = Registry.global)
    (sited : Every (Node.Sited reg) {} (.block body))
    (titled : ∀ site s, Occurs {} (.block body) site (.stmt s) → s.Titled reg site.scope)
    (h : Trail (.block body) around site n) : n.Located reg around site := by
  induction h with
  | root => exact .inl (.inl ⟨rfl, hglobal⟩)
  | step before member ih =>
      have hsited := sited _ _ before.occurs
      rcases hsited.child_cases member with ⟨b, s, rfl, rfl, rfl⟩ | ⟨path, b, span, rfl, rfl⟩ |
        ⟨b, rfl, hinner⟩ | ⟨s, rfl, hinner⟩ | ⟨e, rfl⟩
      · rw [Node.Located, pathThrough_cons, Node.segments, List.append_nil]
        exact ih
      · have houter := Registry.locates_of_declares ih hsited.1
        rw [Node.Located, pathThrough_cons]
        exact .inl ((titled _ _ before.occurs).locates wf houter)
      · exact .inr hinner
      · exact .inr hinner
      · trivial

/-! ### Programs -/

/-- The modules of a program and what is declared in modules stand where their paths lead. -/
structure Program.Located (reg : Registry) (p : Program) : Prop where
  opens : ∀ {outer before path id}, p.Opens outer before path id →
    reg.Locates before outer ∧ path ≠ [] ∧ reg.Locates (before ++ path) id ∧ reg.declares id = true
  names : ∀ {scope path name s}, p.Names scope path name s → reg.declares scope = true →
    reg.Locates path scope ∧ s.GoesBy (reg.qualify scope name)

namespace Program.Located

variable {p : Program} {reg : Registry} {outer outer' id id' : ScopeId} {before before' path path' : List String}

theorem whole (h : p.Located reg) (ho : p.Opens outer before path id) : before ++ path ≠ [] := by
  obtain ⟨_, hne, _⟩ := h.opens ho
  simp [hne]

theorem found (h : p.Located reg) (ho : p.Opens outer before path id) :
    reg.module? (Name.qualified (before ++ path)) = some id := by
  obtain ⟨_, _, hnil | hfound, _⟩ := h.opens ho
  · exact absurd hnil.1 (h.whole ho)
  · exact hfound.2

theorem modulePath (h : p.Located reg) (wf : reg.WellFormed) (ho : p.Opens outer before path id)
    (hp : Name.Plain (before ++ path)) (hp' : Name.Plain (reg.modulePath id)) :
    reg.modulePath id = before ++ path := by
  have found := h.found ho
  have known := wf.modulePath_ne_nil (Registry.mem_of_module? found)
  exact Name.qualified_inj known (h.whole ho) hp' hp (wf.qualified_modulePath found)

theorem scope_eq_iff (h : p.Located reg) (wf : reg.WellFormed) (ho : p.Opens outer before path id)
    (ho' : p.Opens outer' before' path' id') :
    id = id' ↔ Name.qualified (before ++ path) = Name.qualified (before' ++ path') := by
  have found := h.found ho
  have found' := h.found ho'
  constructor
  · rintro rfl
    exact (wf.qualified_modulePath found).symm.trans (wf.qualified_modulePath found')
  · intro heq
    rw [heq, found'] at found
    exact (Option.some.inj found).symm

theorem qualify (h : p.Located reg) (wf : reg.WellFormed) {scope : ScopeId} {name : String} {s : Stmt}
    (hn : p.Names scope path name s) (hd : reg.declares scope = true) :
    reg.qualify scope name = Name.qualified (path ++ [name]) :=
  (h.names hn hd).1.qualified_append wf (List.cons_ne_nil name [])

end Program.Located

/-- The modules of a program, and what is declared in them, are told apart by their joined names. -/
structure Program.ToldApart (reg : Registry) (p : Program) : Prop where
  /-- A module is read in the scope that is noted for its whole path, and has it for its path if both are plain. -/
  scope : ∀ outer before path id, p.Opens outer before path id →
    reg.module? (Name.qualified (before ++ path)) = some id ∧
      Name.qualified (reg.modulePath id) = Name.qualified (before ++ path) ∧
      (Name.Plain (before ++ path) → Name.Plain (reg.modulePath id) → reg.modulePath id = before ++ path)
  /-- Two modules are read in the same scope if and only if their whole paths are joined to the same name. If both
  are plain, they must be the same path. -/
  shared : ∀ outer before path id outer' before' path' id', p.Opens outer before path id →
    p.Opens outer' before' path' id' →
      (id = id' ↔ Name.qualified (before ++ path) = Name.qualified (before' ++ path')) ∧
        (Name.Plain (before ++ path) → Name.Plain (before' ++ path') →
          (id = id' ↔ before ++ path = before' ++ path'))
  /-- What is declared in a module goes by the path of the module and its name, joined. -/
  title : ∀ scope path name s, p.Names scope path name s → reg.declares scope = true →
    reg.qualify scope name = Name.qualified (path ++ [name]) ∧ s.GoesBy (reg.qualify scope name)
  /-- Two declarations in modules, with plain paths and names, differ in what they go by if they do in these. -/
  titles : ∀ scope path name s scope' path' name' s', p.Names scope path name s → p.Names scope' path' name' s' →
    reg.declares scope = true → reg.declares scope' = true → Name.Plain (path ++ [name]) →
      Name.Plain (path' ++ [name']) → (path, name) ≠ (path', name') →
        reg.qualify scope name ≠ reg.qualify scope' name'

theorem Program.Located.toldApart {reg : Registry} {p : Program} (h : p.Located reg) (wf : reg.WellFormed) :
    p.ToldApart reg where
  scope _ _ _ _ ho := ⟨h.found ho, wf.qualified_modulePath (h.found ho), h.modulePath wf ho⟩
  shared _ _ _ _ _ _ _ _ ho ho' := by
    have joined := h.scope_eq_iff wf ho ho'
    refine ⟨joined, fun hp hp' => joined.trans ⟨?_, congrArg Name.qualified⟩⟩
    exact Name.qualified_inj (h.whole ho) (h.whole ho') hp hp'
  title _ _ _ _ hn hd := ⟨h.qualify wf hn hd, (h.names hn hd).2⟩
  titles _ _ _ _ _ _ _ _ hn hn' hd hd' hp hp' hne heq := by
    rw [h.qualify wf hn hd, h.qualify wf hn' hd'] at heq
    have same := Name.qualified_inj (by simp) (by simp) hp hp' heq
    obtain ⟨hpath, hname⟩ := List.append_singleton_inj.mp same
    exact hne (Prod.ext hpath hname)

theorem Grammar.draft_global {source : Source} {r : Region} :
    Returns (draft source r) fun out => out.2.scope = Registry.global :=
  .skip fun _ => .skip fun _ => .pure rfl

namespace Registry

variable {reg reg' : Registry} {source : Source} {tokens : List Token} {p : Program}

theorem body_scope (hread : reg.readTokens source tokens = (.ok p, reg')) : p.body.scope = global := by
  obtain ⟨package, b, hdraft, hsettle⟩ := Grammar.exists_draft hread
  obtain ⟨_, heq, _⟩ := Block.mapCalls_eq_ok hsettle
  rw [heq]
  exact draft_global reg (package, b) reg' hdraft

theorem readTokens_located (h : reg.WellFormed) (hread : reg.readTokens source tokens = (.ok p, reg')) :
    p.Located reg' := by
  obtain ⟨hreach, settled⟩ := readTokens_settled (.ofWellFormed h) rfl (fun _ _ => trivial) hread
  have wf := hreach.wellFormed h
  have sited : Every (Node.Sited reg') {} (.block p.body) := (settled p rfl).imp fun _ _ hn => hn.sited
  have titled : ∀ site s, Occurs {} (.block p.body) site (.stmt s) → s.Titled reg' site.scope :=
    fun _ _ ho => (settled p rfl _ _ ho).titled
  constructor
  · rintro _ _ _ _ ⟨trail⟩
    obtain ⟨hdeclares, hkind⟩ := sited _ _ trail.occurs
    have houter := locates_of_declares (trail.located wf (body_scope hread) sited titled) hdeclares
    have title := titled _ _ trail.occurs
    exact ⟨houter, title.1, title.locates wf houter, by simp [declares, hkind, ScopeKind.declares]⟩
  · rintro _ _ _ _ ⟨trail, named⟩ hdeclares
    exact ⟨locates_of_declares (trail.located wf (body_scope hread) sited titled) hdeclares,
      (titled _ _ trail.occurs).goesBy hdeclares named⟩

/-- In a program that is accepted, joined names tell modules and declarations apart. If the scopes of modules lay
where their paths lead, they still do; then a module whose scope has its whole path for a path lies in the
scope that it is declared in, one segment in the other. -/
theorem readTokens_modules (h : reg.WellFormed) (hread : reg.readTokens source tokens = (.ok p, reg')) :
    p.ToldApart reg' ∧
      (reg.Anchored → reg'.Anchored ∧ ∀ outer before path id, p.Opens outer before path id →
        reg'.modulePath id = before ++ path → reg'.Descends outer path id) := by
  obtain ⟨hreach, _⟩ := readTokens_settled (.ofWellFormed h) rfl (fun _ _ => trivial) hread
  have wf := hreach.wellFormed h
  have located := readTokens_located h hread
  refine ⟨located.toldApart wf, fun ha => ?_⟩
  have anchored := hreach.anchored h ha
  refine ⟨anchored, fun outer before path id ho hpath => ?_⟩
  obtain ⟨houter, _, _, hid⟩ := located.opens ho
  exact anchored.descends wf hid houter hpath

/-- Of a program with a variable and a module in a module, then a module, a variable and another module: the
paths and scopes of the modules, and the names of the variables. -/
def outline? (p : Program) : Option (List (List String × ScopeId) × List String) :=
  match p.body.stmts with
  | [.module a ⟨[.variable v, .module b ⟨_, inner, _⟩ _], outer, _⟩ _, .module c ⟨_, again, _⟩ _, .variable w,
      .module d ⟨_, last, _⟩ _] =>
    some ([(a, outer), (b, inner), (c, again), (d, last)], [v.name, w.name])
  | _ => none

theorem opens_of_outline {a b c d : List String} {outer inner again last : ScopeId} {x y : String}
    (hscope : p.body.scope = global)
    (h : outline? p = some ([(a, outer), (b, inner), (c, again), (d, last)], [x, y])) :
    p.Opens outer a b inner ∧ p.Opens global [] c again ∧ p.Opens global [] d last ∧
      ∃ v w, p.Names outer a x v ∧ p.Names global [] y w := by
  have top {s : Stmt} {i : Nat} (hs : p.body.stmts[i]? = some s) :
      Trail (.block p.body) [.block p.body] { scope := global } (.stmt s) := by
    rw [← hscope]
    exact .step .root (List.mem_map.mpr ⟨s, List.mem_of_getElem? hs, rfl⟩)
  unfold outline? at h
  split at h
  · rename_i hstmts
    simp only [Option.some.injEq, Prod.mk.injEq, List.cons.injEq, and_true] at h
    obtain ⟨⟨⟨rfl, rfl⟩, ⟨rfl, rfl⟩, ⟨rfl, rfl⟩, rfl, rfl⟩, rfl, rfl⟩ := h
    rw [hstmts] at top
    have body := (top (i := 0) rfl).step List.mem_cons_self
    have opens := Program.Opens.intro (body.step (.tail _ (.head _)))
    have names := Program.Names.intro (body.step (.head _)) rfl
    simp only [pathThrough_cons, Node.segments, List.append_nil] at opens names
    exact ⟨opens, .intro (top (i := 1) rfl), .intro (top (i := 3) rfl), _, _, names, .intro (top (i := 2) rfl) rfl⟩
  · cases h

/-- The module `A__B` is read in the scope of the module `B` in `A`, and the variable `A__x` has the qualified
name of `x` in `A`. The scope lies in that of `A`, as it must for the first of the two modules, and not in the
global one. The module `C::D` has a plain path. -/
theorem readTokens_modules_joined :
    let source : Source := ⟨0, "unit.st", "module A \x7b let x: i32 = 1; module B \x7b \x7d \x7d
      module A__B \x7b \x7d let A__x: i32 = 2; module C::D \x7b \x7d"⟩
    ∃ tokens p reg, source.tokens = .ok tokens ∧ Registry.empty.readTokens source tokens = (.ok p, reg) ∧
      p.Opens 1 ["A"] ["B"] 2 ∧ p.Opens 0 [] ["A__B"] 2 ∧ reg.Descends 1 ["B"] 2 ∧ reg.modulePath 2 ≠ ["A__B"] ∧
      (∃ v w, p.Names 1 ["A"] "x" v ∧ p.Names 0 [] "A__x" w ∧ v.GoesBy "A__x" ∧ w.GoesBy "A__x") ∧
      p.Opens 0 [] ["C", "D"] 4 ∧ reg.Descends 0 ["C", "D"] 4 := by
  intro source
  obtain ⟨p, reg, hread, hout⟩ := exists_of_read .empty source (by rfl)
    (fun p reg => decide (outline? p =
        some ([(["A"], 1), (["B"], 2), (["A__B"], 2), (["C", "D"], 4)], ["x", "A__x"]) ∧
      reg.modulePath 2 = ["A", "B"] ∧ reg.modulePath 4 = ["C", "D"] ∧ reg.declares 0 = true ∧
      reg.declares 1 = true)) (x := true) (by decide +kernel)
  obtain ⟨houtline, nested, plain, hglobal, houter⟩ := of_decide_eq_true hout
  obtain ⟨tokens, htokens, hread⟩ := exists_tokens hread
  obtain ⟨told, lies⟩ := readTokens_modules .empty hread
  obtain ⟨_, descends⟩ := lies .empty
  obtain ⟨hB, hAB, hD, v, w, hv, hw⟩ := opens_of_outline (body_scope hread) houtline
  obtain ⟨hx, bound⟩ := told.title _ _ _ _ hv houter
  obtain ⟨hAx, bound'⟩ := told.title _ _ _ _ hw hglobal
  rw [hx] at bound
  rw [hAx] at bound'
  exact ⟨tokens, p, reg, htokens, hread, hB, hAB, descends _ _ _ _ hB nested, by simp [nested],
    ⟨v, w, hv, hw, bound, bound'⟩, hD, descends _ _ _ _ hD plain⟩

end Registry
end OnePass
