import OnePass.Proofs.Registry.WellFormed
import OnePass.Proofs.Tree.Occurrence
import OnePass.Tree.Returns

/-!
Where the parts of a tree may stand. `Node.Sited` is what can be asked of a part that knows only its place:
functions are declared in modules, the blocks of statements have scopes of their own. From that it
follows what is around a part on the way to it from the whole tree: which loop a `break` leaves, which
function a `return` ends, and that nothing but modules is around a declaration.
-/

namespace OnePass

def Stmt.isPackage : Stmt → Bool
  | .package .. => true
  | _ => false

/-- The body of a routine has a scope of its own, and it returns if there is a result. -/
def Routine.Encloses (reg : Registry) (f : Routine) : Prop :=
  ∀ b ∈ f.body, reg.Inner b.scope ∧ (f.result.isVoid = false → b.returns = true)

/-- A part may stand where it does. -/
def Node.Sited (reg : Registry) (site : Site) : Node → Prop
  | .block b =>
    ∀ (i : Nat) s, b.stmts[i]? = some s → s.isPackage = true → b.scope = Registry.global ∧ i = 0
  | .stmt (.imports ..) => site.scope = Registry.global
  | .stmt (.module _ body _) => reg.declares site.scope = true ∧ reg.kind? body.scope = some .module
  | .stmt (.function f) => reg.declares site.scope = true ∧ f.Encloses reg
  | .stmt (.struct _) => reg.declares site.scope = true
  | .stmt (.cond _ yes no _) => reg.Inner yes.scope ∧ ∀ b ∈ no, reg.Inner b.scope
  | .stmt (.while _ body _) => reg.Inner body.scope
  | .stmt (.for init _ _ body scope _) =>
    (∀ s ∈ init, s.isPackage = false) ∧ reg.Inner scope ∧ reg.Inner body.scope
  | .stmt (.block b) => reg.Inner b.scope
  | .stmt (.return ..) => site.routine.isSome = true
  | .stmt (.break _) | .stmt (.continue _) => site.inLoop = true
  | .expr (.variadic _) => site.routine.any (·.isVariadic) = true
  | .expr (.lambda f) => f.Encloses reg
  | _ => True

/-! ### Growth and settling -/

theorem Routine.Encloses.mono {reg reg' : Registry} {f : Routine} (h : f.Encloses reg)
    (hx : reg.Extends reg') : f.Encloses reg' :=
  fun b hb => ⟨(h b hb).1.mono hx, (h b hb).2⟩

theorem Node.Sited.mono {reg reg' : Registry} {site : Site} {n : Node} (h : n.Sited reg site)
    (hk : reg.Knows site.scope) (hx : reg.Extends reg') : n.Sited reg' site := by
  cases n with
  | block => exact h
  | stmt s =>
      cases s with
      | «module» =>
          obtain ⟨hd, hm⟩ := h
          have known : reg.Knows _ := Registry.knows_of_kind? hm
          exact ⟨(hx.declares_eq hk).trans hd, (hx.kind?_eq known).trans hm⟩
      | function => exact ⟨(hx.declares_eq hk).trans h.1, h.2.mono hx⟩
      | struct => exact (hx.declares_eq hk).trans h
      | cond => exact ⟨h.1.mono hx, fun b hb => (h.2 b hb).mono hx⟩
      | «while» => exact Registry.Inner.mono h hx
      | «for» => exact ⟨h.1, h.2.1.mono hx, h.2.2.mono hx⟩
      | block => exact Registry.Inner.mono h hx
      | package | imports | enum | «variable» | «return» | «break» | «continue» | expr => exact h
  | expr e =>
      cases e with
      | lambda => exact Routine.Encloses.mono h hx
      | literal | identifier | «variadic» | member | index | call | binary | unary | assign | construct
      | array => exact h

section MapCalls

variable {g : Call → Except Diagnostic Call}

theorem Stmt.isPackage_mapCalls {s s' : Stmt} (h : s.mapCalls g = .ok s') :
    s'.isPackage = s.isPackage := by
  cases Stmt.becomes h <;> rfl

mutual

theorem Stmt.returns_mapCalls {s' : Stmt} : ∀ s : Stmt, s.mapCalls g = .ok s' → s'.returns = s.returns
  | .block b, h => by
      simp only [Stmt.mapCalls, bind_eq_ok, pure_eq_ok] at h
      obtain ⟨b', hb, rfl⟩ := h
      simp only [Stmt.returns, Block.returns_mapCalls b hb]
  | .cond condition yes no span, h => by
      simp only [Stmt.mapCalls, bind_eq_ok, pure_eq_ok] at h
      obtain ⟨_, _, yes', hyes, no', hno, rfl⟩ := h
      cases no with
      | none =>
          obtain rfl := pure_eq_ok.mp hno
          rfl
      | some b =>
          obtain ⟨b', hb, hno⟩ := bind_eq_ok.mp hno
          obtain rfl := pure_eq_ok.mp hno
          simp only [Stmt.returns, Block.returns_mapCalls yes hyes, Block.returns_mapCalls b hb]
  | .package .., h | .imports .., h | .struct _, h | .return .., h | .break _, h | .continue _, h
  | .module .., h | .function _, h | .enum .., h | .variable _, h | .while .., h | .for .., h
  | .expr _, h => by
      simp only [Stmt.mapCalls, bind_eq_ok, pure_eq_ok] at h
      grind [Stmt.returns]

theorem Stmt.anyReturns_mapCalls {ss' : List Stmt} :
    ∀ ss : List Stmt, Stmt.mapCallsList g ss = .ok ss' → Stmt.anyReturns ss' = Stmt.anyReturns ss
  | [], h => by
      obtain rfl := pure_eq_ok.mp h
      rfl
  | s :: ss, h => by
      simp only [Stmt.mapCallsList, bind_eq_ok, pure_eq_ok] at h
      obtain ⟨s', hs, rest, hrest, rfl⟩ := h
      simp only [Stmt.anyReturns, Stmt.returns_mapCalls s hs, Stmt.anyReturns_mapCalls ss hrest]

theorem Block.returns_mapCalls {b' : Block} : ∀ b : Block, b.mapCalls g = .ok b' → b'.returns = b.returns
  | ⟨stmts, scope, span⟩, h => by
      simp only [Block.mapCalls, bind_eq_ok, pure_eq_ok] at h
      obtain ⟨stmts', hstmts, rfl⟩ := h
      simp only [Block.returns, Stmt.anyReturns_mapCalls stmts hstmts]

end

theorem Routine.Encloses.of_mapCalls {reg : Registry} {f f' : Routine} (h : f.Encloses reg)
    (hm : f.mapCalls g = .ok f') : f'.Encloses reg := by
  obtain ⟨body, rfl, hbody⟩ := Routine.mapCalls_eq_ok hm
  intro b' hb'
  obtain ⟨b, hb, hmap⟩ := exists_mem_of_forall₂ hbody (Option.mem_toList.mpr hb')
  obtain ⟨hinner, hreturns⟩ := h b (Option.mem_toList.mp hb)
  rw [Block.returns_mapCalls b hmap]
  obtain ⟨_, rfl, _⟩ := Block.mapCalls_eq_ok hmap
  exact ⟨hinner, hreturns⟩

/-- Replacing calls leaves parts where they may stand. -/
theorem Node.Sited.of_mapCalls {reg : Registry} {site : Site} {n n' : Node} (h : n.Sited reg site)
    (hm : n.mapCalls g = .ok n') : n'.Sited reg site := by
  have inner {b b' : Block} (hb : b.mapCalls g = .ok b') (hi : reg.Inner b.scope) :
      reg.Inner b'.scope := by
    obtain ⟨_, rfl, _⟩ := Block.mapCalls_eq_ok hb
    exact hi
  cases n with
  | block b =>
      obtain ⟨b', hb, rfl⟩ := map_eq_ok.mp hm
      obtain ⟨stmts, rfl, hstmts⟩ := Block.mapCalls_eq_ok hb
      intro i s' hs' hpackage
      obtain ⟨s, hs, hmap⟩ := exists_getElem?_of_forall₂ hstmts hs'
      exact h i s hs (Stmt.isPackage_mapCalls hmap ▸ hpackage)
  | stmt s =>
      obtain ⟨s', hs, rfl⟩ := map_eq_ok.mp hm
      cases Stmt.becomes hs with
      | package | imports | struct | enum | «variable» | «return» | «break» | «continue» | expr => exact h
      | «module» body =>
          obtain ⟨_, rfl, _⟩ := Block.mapCalls_eq_ok body
          exact h
      | function routine => exact ⟨h.1, h.2.of_mapCalls routine⟩
      | cond _ yes no =>
          refine ⟨inner yes h.1, fun b' hb' => ?_⟩
          obtain ⟨b, hb, hmap⟩ := exists_mem_of_forall₂ no (Option.mem_toList.mpr hb')
          exact inner hmap (h.2 b (Option.mem_toList.mp hb))
      | «while» _ body => exact inner body h
      | «for» init _ _ body =>
          refine ⟨fun s' hs' => ?_, h.2.1, inner body h.2.2⟩
          obtain ⟨s, hs, hmap⟩ := exists_mem_of_forall₂ init (Option.mem_toList.mpr hs')
          exact Stmt.isPackage_mapCalls hmap ▸ h.1 s (Option.mem_toList.mp hs)
      | block b => exact inner b h
  | expr e =>
      obtain ⟨e', he, rfl⟩ := map_eq_ok.mp hm
      cases Expr.becomes he with
      | lambda routine => exact Routine.Encloses.of_mapCalls h routine
      | literal | identifier | «variadic» | member | index | call | binary | unary | assign | construct
      | array => exact h

end MapCalls

/-! ### What is around a part -/

/-- The routine that a part is, if it is one. -/
def Node.routine? : Node → Option Routine
  | .stmt (.function f) | .expr (.lambda f) => some f
  | _ => none

theorem Node.routine?_eq_some {n : Node} {f : Routine} (h : n.routine? = some f) :
    n = .stmt (.function f) ∨ n = .expr (.lambda f) := by
  cases n with
  | block => cases h
  | stmt s =>
      cases s <;> cases h
      exact .inl rfl
  | expr e =>
      cases e <;> cases h
      exact .inr rfl

theorem Node.routine?_of_mapCalls {g : Call → Except Diagnostic Call} {n n' : Node} {f' : Routine}
    (h : n.mapCalls g = .ok n') (hf' : n'.routine? = some f') :
    ∃ f, n.routine? = some f ∧ f.mapCalls g = .ok f' := by
  rcases routine?_eq_some hf' with rfl | rfl
  · obtain ⟨s, rfl, hs⟩ := stmt_of_mapCalls h
    cases Stmt.becomes hs with
    | function hf => exact ⟨_, rfl, hf⟩
  · obtain ⟨e, rfl, he⟩ := expr_of_mapCalls h
    cases Expr.becomes he with
    | lambda hf => exact ⟨_, rfl, hf⟩

theorem Node.occurs_body {site : Site} {n : Node} {f : Routine} {b : Block} (hf : n.routine? = some f)
    (hb : b ∈ f.body) : Occurs site n (site.inside f) (.block b) := by
  have member : (site.inside f, Node.block b) ∈ Node.ofBody site f :=
    List.mem_map_of_mem (Option.mem_toList.mpr hb)
  rcases routine?_eq_some hf with rfl | rfl <;> exact .under member .here

theorem Node.Sited.encloses {reg : Registry} {site : Site} {n : Node} {f : Routine} (h : n.Sited reg site)
    (hf : n.routine? = some f) : f.Encloses reg := by
  rcases routine?_eq_some hf with rfl | rfl
  · exact h.2
  · exact h

/-- What a part is inside of a module, up to the whole program: a block or a module. -/
def Node.isModular : Node → Bool
  | .block _ | .stmt (.module ..) => true
  | _ => false

/-- The body of a loop. -/
def Stmt.loopBody? : Stmt → Option Block
  | .while _ body _ | .for _ _ _ body _ _ => some body
  | _ => none

/-- A part of a tree, where it stands, and the parts around it, innermost first. -/
inductive Trail (root : Node) : List Node → Site → Node → Prop where
  | root : Trail root [] {} root
  | step {around : List Node} {site site' : Site} {n n' : Node} (before : Trail root around site n)
      (member : (site', n') ∈ n.children site) : Trail root (n :: around) site' n'

/-- Only the whole program is around a place in the scope, or only modules are, or it is an inner scope. -/
def Registry.Nests (reg : Registry) (body : Block) (around : List Node) (scope : ScopeId) : Prop :=
  around = [.block body] ∨ (∀ n ∈ around, n.isModular = true) ∧ reg.kind? scope = some .module ∨
    reg.Inner scope

/-- What is known of the scope that a statement stands in, or that the statements of a block stand in. -/
def Node.Nests (reg : Registry) (body : Block) (around : List Node) (site : Site) : Node → Prop
  | .block b => reg.Nests body (.block b :: around) b.scope
  | .stmt _ => reg.Nests body around site.scope
  | .expr _ => True

/-- Inside the body of a loop, with no function between the two. -/
def InLoop (around : List Node) : Prop :=
  ∃ inner body loop outer, around = inner ++ .block body :: .stmt loop :: outer ∧
    loop.loopBody? = some body ∧ ∀ n ∈ inner, n.routine? = none

/-- What must be around a part of a program. -/
def Node.Placed (body : Block) (around : List Node) : Node → Prop
  | .stmt (.break _) | .stmt (.continue _) => InLoop around
  | .stmt (.return ..) => ∃ n ∈ around, n.routine?.isSome = true
  | .expr (.variadic _) =>
    ∃ f, (around.filterMap Node.routine?).head? = some f ∧ f.traits.isVariadic = true
  | .stmt (.function _) | .stmt (.struct _) | .stmt (.module ..) => ∀ n ∈ around, n.isModular = true
  | .stmt (.imports ..) => around = [.block body]
  | .stmt (.package name span) =>
    around = [.block body] ∧ ∀ i : Nat, body.stmts[i]? = some (.package name span) → i = 0
  | _ => True

/-- A part below another is in the body of that, if it is a routine. Otherwise it is in the same routine, and
in the same loop unless the other is a loop and this is its body. -/
theorem Node.child_cases {site site' : Site} {n n' : Node} (h : (site', n') ∈ n.children site) :
    (∃ f, n.routine? = some f ∧ site' = site.inside f) ∨
      n.routine? = none ∧ site'.routine = site.routine ∧ (site'.inLoop = site.inLoop ∨
        ∃ loop body, n = .stmt loop ∧ loop.loopBody? = some body ∧ n' = .block body) := by
  cases n with
  | block b =>
      obtain ⟨s, _, heq⟩ := List.mem_map.mp h
      cases heq
      exact .inr ⟨rfl, rfl, .inl rfl⟩
  | stmt s =>
      cases s <;> simp only [Node.children, Node.ofBody, List.mem_cons, List.mem_append, List.mem_map,
        List.not_mem_nil, or_false, Prod.mk.injEq] at h <;> grind [Node.routine?, Stmt.loopBody?]
  | expr e =>
      cases e <;> simp only [Node.children, Node.ofBody, List.mem_cons, List.mem_map, List.not_mem_nil,
        or_false, Prod.mk.injEq] at h <;> grind [Node.routine?]

/-- How a statement or a block comes to stand below another part: in a block, as the body of a module, or in
an inner scope. -/
theorem Node.Sited.child_cases {reg : Registry} {site site' : Site} {n n' : Node}
    (hsited : n.Sited reg site) (h : (site', n') ∈ n.children site) :
    (∃ b s, n = .block b ∧ n' = .stmt s ∧ site' = { site with scope := b.scope }) ∨
      (∃ path b span, n = .stmt (.module path b span) ∧ n' = .block b) ∨
      (∃ b, n' = .block b ∧ reg.Inner b.scope) ∨ (∃ s, n' = .stmt s ∧ reg.Inner site'.scope) ∨
      ∃ e, n' = .expr e := by
  cases n with
  | block b =>
      obtain ⟨s, _, heq⟩ := List.mem_map.mp h
      cases heq
      exact .inl ⟨b, s, rfl, rfl, rfl⟩
  | stmt s =>
      cases s <;> simp only [Node.children, Node.ofBody, List.mem_cons, List.mem_append, List.mem_map,
        List.not_mem_nil, or_false, Prod.mk.injEq] at h <;> grind [Node.Sited, Routine.Encloses]
  | expr e =>
      cases e <;> simp only [Node.children, Node.ofBody, List.mem_cons, List.mem_map, List.not_mem_nil,
        or_false, Prod.mk.injEq] at h <;> grind [Node.Sited, Routine.Encloses]

namespace Registry.Nests

variable {reg : Registry} {body : Block} {around : List Node} {scope : ScopeId}

/-- Where functions may be declared, only modules are around. -/
theorem modular (h : reg.Nests body around scope) (hd : reg.declares scope = true) :
    ∀ n ∈ around, n.isModular = true := by
  rcases h with rfl | ⟨hmodular, _⟩ | ⟨_, hinner⟩
  · simp [Node.isModular]
  · exact hmodular
  · rw [hd] at hinner
    cases hinner

/-- In the global scope, only the whole program is around. -/
theorem outermost (h : reg.Nests body around global) (wf : reg.WellFormed) : around = [.block body] := by
  obtain ⟨s, hs, hk, _⟩ := wf.root
  rcases h with h | ⟨_, hmodule⟩ | ⟨_, hinner⟩
  · exact h
  · simp [kind?, hs, hk] at hmodule
  · simp [declares, kind?, hs, hk, ScopeKind.declares] at hinner

end Registry.Nests

namespace Trail

variable {root n : Node} {around : List Node} {site : Site}

theorem occurs (h : Trail root around site n) : Occurs {} root site n := by
  induction h with
  | root => exact .here
  | step _ member ih => exact ih.trans (.under member .here)

/-- The routine that a place is in is the innermost around it. -/
theorem routine_eq (h : Trail root around site n) :
    site.routine = (around.filterMap Node.routine?).head?.map fun f =>
      ⟨f.name, f.result, f.traits.isVariadic⟩ := by
  induction h with
  | root => rfl
  | step _ member ih =>
      rcases Node.child_cases member with ⟨f, hf, rfl⟩ | ⟨hnone, hroutine, _⟩
      · simp [hf, Site.inside]
      · simp [hnone, hroutine, ih]

/-- A place that is in a loop is in the body of one, or it is that of the body itself. -/
theorem inLoop (h : Trail root around site n) (hl : site.inLoop = true) :
    InLoop around ∨ ∃ body loop outer, n = .block body ∧ around = .stmt loop :: outer ∧
      loop.loopBody? = some body := by
  induction h with
  | root => cases hl
  | step before member ih =>
      rcases Node.child_cases member with ⟨f, hf, rfl⟩ | ⟨hnone, _, hsame | ⟨loop, body, rfl, hbody, rfl⟩⟩
      · cases hl
      · left
        rcases ih (hsame ▸ hl) with ⟨inner, body, loop, outer, rfl, hbody, hinner⟩ |
          ⟨body, loop, outer, rfl, rfl, hbody⟩
        · exact ⟨_ :: inner, body, loop, outer, rfl, hbody, List.forall_mem_cons.mpr ⟨hnone, hinner⟩⟩
        · exact ⟨[], body, loop, outer, rfl, hbody, by simp⟩
      · exact .inr ⟨body, loop, _, rfl, rfl, hbody⟩

variable {reg : Registry} {body : Block}

/-- Going into a tree, one does not come out of the scopes. -/
theorem nests (hall : Every (Node.Sited reg) {} (.block body)) (h : Trail (.block body) around site n) :
    n.Nests reg body around site := by
  induction h with
  | root => exact .inl rfl
  | step before member ih =>
      have hsited := hall _ _ before.occurs
      rcases hsited.child_cases member with ⟨b, s, rfl, rfl, rfl⟩ | ⟨path, b, span, rfl, rfl⟩ |
        ⟨b, rfl, hinner⟩ | ⟨s, rfl, hinner⟩ | ⟨e, rfl⟩
      · exact ih
      · obtain ⟨hdeclares, hkind⟩ := hsited
        have around := Registry.Nests.modular ih hdeclares
        exact .inr (.inl ⟨List.forall_mem_cons.mpr ⟨rfl, List.forall_mem_cons.mpr ⟨rfl, around⟩⟩, hkind⟩)
      · exact .inr (.inr hinner)
      · exact .inr (.inr hinner)
      · trivial

/-- A package is the first statement of a program. -/
theorem package (wf : reg.WellFormed) (hall : Every (Node.Sited reg) {} (.block body)) {name : String}
    {span : Span} (h : Trail (.block body) around site (.stmt (.package name span))) :
    around = [.block body] ∧ ∀ i : Nat, body.stmts[i]? = some (.package name span) → i = 0 := by
  have first : ∀ i : Nat, body.stmts[i]? = some (.package name span) → i = 0 := fun i hi =>
    (hall _ _ .here i _ hi rfl).2
  refine ⟨?_, first⟩
  cases h with
  | @step around _ _ n _ before member =>
      have hsited := hall _ _ before.occurs
      have hnests := before.nests hall
      cases n with
      | block b =>
          obtain ⟨s, hs, heq⟩ := List.mem_map.mp member
          cases heq
          obtain ⟨i, hi⟩ := List.mem_iff_getElem?.mp hs
          have hscope := (hsited i _ hi rfl).1
          simp only [Node.Nests, hscope] at hnests
          exact hnests.outermost wf
      | stmt s =>
          cases s <;> simp only [Node.children, Node.ofBody, List.mem_cons, List.mem_append, List.mem_map,
            List.not_mem_nil, or_false, Prod.mk.injEq, reduceCtorEq, and_false, exists_false] at member
          obtain ⟨s, hs, _, heq⟩ := member
          cases heq
          cases hsited.1 _ (Option.mem_toList.mp hs)
      | expr e =>
          cases e <;> simp only [Node.children, Node.ofBody, List.mem_cons, List.mem_map,
            List.not_mem_nil, or_false, Prod.mk.injEq, reduceCtorEq, and_false, exists_false] at member

/-- In a program all of whose parts may stand where they do, around each there is what must be. -/
theorem placed (wf : reg.WellFormed) (hall : Every (Node.Sited reg) {} (.block body))
    (h : Trail (.block body) around site n) : n.Placed body around := by
  have hsited := hall _ _ h.occurs
  have hnests := h.nests hall
  have loop (hl : site.inLoop = true) {s : Stmt} (hn : n = .stmt s) : InLoop around := by
    rcases h.inLoop hl with hin | ⟨_, _, _, hblock, _⟩
    · exact hin
    · rw [hn] at hblock
      cases hblock
  cases n with
  | block => trivial
  | stmt s =>
      cases s with
      | package => exact h.package wf hall
      | imports => exact Registry.Nests.outermost (hsited ▸ hnests) wf
      | «module» | function => exact Registry.Nests.modular hnests hsited.1
      | struct => exact Registry.Nests.modular hnests hsited
      | «return» =>
          rw [Node.Sited, h.routine_eq, Option.isSome_map] at hsited
          obtain ⟨f, hf⟩ := Option.isSome_iff_exists.mp hsited
          obtain ⟨m, hm, hroutine⟩ := List.mem_filterMap.mp (List.mem_of_head? hf)
          exact ⟨m, hm, by simp [hroutine]⟩
      | «break» | «continue» => exact loop hsited rfl
      | enum | «variable» | cond | «while» | «for» | block | expr => trivial
  | expr e =>
      cases e with
      | «variadic» =>
          rw [Node.Sited, h.routine_eq, Option.any_map] at hsited
          obtain ⟨f, hf, hvariadic⟩ := (Option.any_eq_true _ _).mp hsited
          exact ⟨f, hf, hvariadic⟩
      | literal | identifier | member | index | call | binary | unary | assign | construct | array
      | lambda => trivial

end Trail

end OnePass
