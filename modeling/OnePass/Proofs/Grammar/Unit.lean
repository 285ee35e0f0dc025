import OnePass.Grammar.Unit
import OnePass.Proofs.Grammar.Statements

/-!
Whole units. All productions give trees that are built, and a unit that is accepted is such a tree whose
calls have been settled.
-/

namespace OnePass

open Grammar

namespace Grammar

variable {rd : Reading} {reg : Registry} {r : Region} {hi : Nat}

theorem Below.Sound.restrict {n m : Nat} {below : Below Parse n} (hbelow : below.Sound) (h : m ≤ n) :
    (below.restrict h).Sound where
  statement ctx _ _ _ _ hready hallows hr := hbelow.statement ctx hready hallows hr
  expression ctx _ _ _ _ hready hr := hbelow.expression ctx hready hr
  unary ctx _ _ _ _ hready hr := hbelow.unary ctx hready hr
  power ctx _ _ _ _ hready hr := hbelow.power ctx hready hr

theorem below_sound (n : Nat) : (below n).Sound := by
  induction n with
  | zero => exact ⟨fun _ _ h => absurd h Region.not_lt_zero, fun _ _ h => absurd h Region.not_lt_zero,
      fun _ _ h => absurd h Region.not_lt_zero, fun _ _ h => absurd h Region.not_lt_zero⟩
  | succ n ih =>
      have inner {r : Region} (h : r.size < n + 1) := ih.restrict (Region.le_of_lt_succ h)
      exact {
        statement := fun _ r h _ _ hready hallows hr =>
          statement_gives (h := r.size_le) (inner h) hready hallows hr
        expression := fun _ r h _ _ hready hr => expression_gives (h := r.size_le) (inner h) hready hr
        unary := fun _ r h _ _ hready hr => unary_gives (h := r.size_le) (inner h) hready hr
        power := fun _ r h _ _ hready hr => power_gives (h := r.size_le) (inner h) hready hr }

theorem packageDecl_faces {V : View} (hr : r.Faces V hi) :
    Yields (packageDecl r) fun s => s.2.Faces V hi := by
  unfold packageDecl
  refine Yields.bind (fun _ => hr.takeOr) fun ⟨keyword, r₁⟩ ⟨_, _, hr₁⟩ => ?_
  refine Yields.bind (fun _ => r₁.takeNamed_took hr₁) fun ⟨first, r₂⟩ ⟨_, _, hr₂⟩ => ?_
  refine Yields.bind (Logic.except.leftLoop (s := ()) (I := fun r _ _ => r.Faces V hi) ?_ hr₂)
    fun ⟨segments, r₃⟩ hr₃ => ?_
  · intro r₀ _ segments _ hr₀
    split
    · rename_i r₁ hcolon
      refine Yields.bind (fun _ => r₁.takeNamed_took (hr₀.accept? hcolon).2.2)
        fun ⟨t, r₂⟩ ⟨_, _, hr₂⟩ => ?_
      exact Yields.pure hr₂
    · exact Yields.pure hr₀
  · refine Yields.bind (fun _ => r₃.take_took hr₃) fun ⟨_, r₄⟩ ⟨_, _, hr₄⟩ => ?_
    exact Yields.pure hr₄

theorem package?_faces {V : View} (hr : r.Faces V hi) : Yields (package? r) fun s => s.2.Faces V hi := by
  unfold package?
  split
  · exact Yields.pure hr
  · refine Yields.bind (packageDecl_faces hr) fun ⟨p, rest⟩ hrest => ?_
    exact Yields.pure hrest

/-- A unit before its calls are settled. -/
def draft (source : Source) (r : Region) : Parse (Option (String × Span) × Block) := do
  let start := r.head.span
  let (package, r₁) ← package? r
  let (stmts, rest) ← allStatements { source } r₁
  let head := package.toList.map fun (name, span) => Stmt.package name span
  return (package, ⟨head ++ stmts, Registry.global, rest.spanFrom start⟩)

theorem unit_eq (source : Source) (r : Region) :
    (unit source r : Parse Program) = (do
      let (package, b) ← draft source r
      let b ← settle (← get) source b
      return { path := source.path, package := package.map (·.1), body := b }) := by
  simp only [unit, draft, bind_assoc, pure_bind]

theorem draft_gives {source : Source} (hready : rd.Ready reg Registry.global)
    (hallows : rd.Allows (r.front hi) reg Registry.global) (hr : r.Faces (rd.view reg) hi) :
    rd.Gives (draft source r) reg fun out reg₁ => rd.Built reg₁ {} (.block out.2) := by
  unfold draft
  refine .lift (package?_faces hr) fun ⟨package, r₁⟩ hr₁ => ?_
  have all : rd.Gives (allStatements { source } r₁) reg _ :=
    statements_gives (below_sound _) hready (hallows.mono (r₁.front_le hi)) hr₁
  refine .bind all fun ⟨stmts, rest⟩ reg₁ h₁ ⟨_, hready₁, hstmts⟩ => ?_
  refine .pure (.intro hready₁ .refl hready₁.knows ?_ (fun i s hs hpackage => ⟨rfl, ?_⟩) trivial)
  · intro child hc
    obtain ⟨s, hs, rfl⟩ := List.mem_map.mp hc
    rcases List.mem_append.mp hs with hs | hs
    · obtain ⟨_, _, rfl⟩ := List.mem_map.mp hs
      exact .intro hready₁ .refl trivial (by simp [Node.children]) trivial trivial
    · exact (hstmts s hs).2
  · -- There is at most one package in front, and none behind it.
    cases package with
    | none =>
        rw [(hstmts s (List.mem_of_getElem? hs)).1] at hpackage
        cases hpackage
    | some p =>
        cases i with
        | zero => rfl
        | succ i =>
            rw [(hstmts s (List.mem_of_getElem? (i := i) hs)).1] at hpackage
            cases hpackage

/-- What is accepted as a unit: a tree that was built on the way, settled at its end. -/
theorem unit_gives {source : Source} (hready : rd.Ready reg Registry.global)
    (hallows : rd.Allows (r.front hi) reg Registry.global) (hr : r.Faces (rd.view reg) hi) :
    rd.Gives (unit source r) reg fun p reg₁ =>
      ∃ b, rd.Built reg₁ {} (.block b) ∧ settle reg₁ source b = .ok p.body := by
  rw [unit_eq]
  refine .bind (draft_gives hready hallows hr) fun ⟨package, b⟩ reg₁ h₁ hb => ?_
  refine .get ?_
  refine .lift (fun _ h => h) fun b' hb' => ?_
  exact .pure ⟨b, hb, hb'⟩

/-- A unit that is accepted was read to its end before its calls were settled. -/
theorem exists_draft {source : Source} {r : Region} {reg reg' : Registry} {p : Program}
    (h : (unit source r : Parse Program).run.run reg = (.ok p, reg')) :
    ∃ package b, (draft source r).run.run reg = (.ok (package, b), reg') ∧
      settle reg' source b = .ok p.body := by
  rw [unit_eq, run_bind] at h
  split at h
  · rename_i out reg₁ hdraft
    obtain ⟨package, b⟩ := out
    change (liftM (settle reg₁ source b) >>= fun b => pure _ : Parse Program).run.run reg₁ = _ at h
    cases hs : settle reg₁ source b with
    | error d =>
        rw [hs] at h
        cases h
    | ok b' =>
        rw [hs] at h
        cases h
        exact ⟨package, b, hdraft, hs⟩
  · cases h

end Grammar

/-! ### Settling -/

theorem Registry.settleCall_eq_ok {reg : Registry} {source : Source} {c c' : Call}
    (h : reg.settleCall source c = .ok c') :
    ∃ target, c' = { c with target } ∧
      (c.target ≠ .deferred ∧ target = c.target ∨
        c.target = .deferred ∧ reg.target? c = .ok (some target)) := by
  unfold Registry.settleCall at h
  split at h
  · rename_i hne
    obtain rfl := Except.ok.inj h
    exact ⟨c.target, by cases c; rfl, .inl ⟨hne, rfl⟩⟩
  · rename_i hdeferred
    obtain ⟨found, hfound, h⟩ := bind_eq_ok.mp h
    rw [Typing.locate_eq_ok] at hfound
    cases found with
    | none => cases h
    | some target => exact ⟨target, (Except.ok.inj h).symm, .inr ⟨by simpa using hdeferred, hfound⟩⟩

theorem Registry.retargets (reg : Registry) (source : Source) : Retargets (reg.settleCall source) := by
  intro c c' h
  obtain ⟨target, rfl, ⟨_, rfl⟩ | ⟨hd, _⟩⟩ := settleCall_eq_ok h
  · exact ⟨_, rfl, fun _ => rfl⟩
  · exact ⟨target, rfl, fun hne => absurd hd hne⟩

namespace Reading

/-- A part of an accepted program: it was built on the way to the registry at the end, and its calls have
been settled there. -/
def Settled (rd : Reading) (reg : Registry) (source : Source) (site : Site) (n : Node) : Prop :=
  ∃ n₀, rd.Built reg site n₀ ∧ n₀.mapCalls (reg.settleCall source) = .ok n

/-- What was known of such a part when it was read is known of a registry that the one at the end extends. -/
theorem Settled.formed {rd : Reading} {reg : Registry} {source : Source} {site : Site} {n : Node}
    (h : rd.Settled reg source site n) :
    ∃ n₀ reg₀, reg₀.WellFormed ∧ reg.WellFormed ∧ reg₀.Extends reg ∧ reg₀.Knows site.scope ∧
      rd.Formed reg₀ site n₀ ∧ n₀.mapCalls (reg.settleCall source) = .ok n := by
  obtain ⟨n₀, hbuilt, hn⟩ := h
  obtain ⟨reg₀, h₀, hreach, hk, hf⟩ := hbuilt.formed
  have wf₀ := h₀.wellFormed rd.wellFormed
  exact ⟨n₀, reg₀, wf₀, hreach.wellFormed wf₀, hreach.grows, hk, hf, hn⟩

theorem Built.settled {rd : Reading} {reg : Registry} {source : Source} {b b' : Block}
    (h : rd.Built reg {} (.block b)) (hs : settle reg source b = .ok b') :
    Every (rd.Settled reg source) {} (.block b') := by
  intro site n ho
  have hmap : (Node.block b).mapCalls (reg.settleCall source) = .ok (.block b') :=
    map_eq_ok.mpr ⟨b', hs, rfl⟩
  obtain ⟨n₀, ho₀, hn⟩ := Occurs.of_mapCalls (reg.retargets source) hmap ho
  exact ⟨n₀, Every.part h ho₀, hn⟩

/-- Reading a unit against a registry, where nothing is known of the tokens. -/
def ofWellFormed {reg : Registry} (h : reg.WellFormed) : Reading where
  token := fun _ => True
  start := reg
  home := some Registry.global
  wellFormed := h
  tidy := .all reg

/-- The reading of a list of tokens. -/
def overTokens (rd : Reading) (tokens : List Token) (h : ∀ t ∈ tokens, rd.token t) : Reading :=
  { rd with tokens, known := h }

/-- The reading of the tokens of a file; there are none if it is not made of tokens. -/
def overFile (rd : Reading) (source : Source)
    (h : ∀ tokens, source.tokens = .ok tokens → ∀ t ∈ tokens, rd.token t) : Reading :=
  rd.overTokens (source.tokens.toOption.getD []) (by
    cases htokens : source.tokens with
    | error d => simp [Except.toOption]
    | ok tokens => exact h tokens htokens)

end Reading

/-- Tokens that are read: the registry is one that reading leads to, and the parts of an accepted program
were formed on the way. -/
theorem Registry.readTokens_settled {reg' : Registry} {source : Source} {tokens : List Token}
    {x : Except Diagnostic Program} (rd : Reading) (hhome : rd.home = some Registry.global)
    (htokens : ∀ t ∈ tokens, rd.token t) (hread : rd.start.readTokens source tokens = (x, reg')) :
    (rd.overTokens tokens htokens).Reaches rd.start reg' ∧
      ∀ p, x = .ok p → Every ((rd.overTokens tokens htokens).Settled reg' source) {} (.block p.body) := by
  have hready : (rd.overTokens tokens htokens).Ready rd.start Registry.global := ⟨.refl, rd.wellFormed.knows_global⟩
  have gives : (rd.overTokens tokens htokens).Gives (unit source (.ofTokens source tokens)) rd.start _ :=
    unit_gives hready (.home hhome) (.ofTokens .refl)
  obtain ⟨hreach, hq⟩ := gives
  unfold Registry.readTokens at hread
  rw [hread] at hreach hq
  refine ⟨hreach, fun p hp => ?_⟩
  obtain ⟨b, hb, hs⟩ := hq p hp
  exact hb.settled hs

/-- A file that is read is either not made of tokens, or its tokens are read. -/
theorem Registry.read_settled {reg' : Registry} {source : Source} {x : Except Diagnostic Program}
    (rd : Reading) (hhome : rd.home = some Registry.global)
    (htokens : ∀ tokens, source.tokens = .ok tokens → ∀ t ∈ tokens, rd.token t)
    (hread : rd.start.read source = (x, reg')) :
    (rd.overFile source htokens).Reaches rd.start reg' ∧
      ∀ p, x = .ok p → Every ((rd.overFile source htokens).Settled reg' source) {} (.block p.body) := by
  unfold Registry.read at hread
  split at hread
  · rename_i tokens ht
    have heq : source.tokens.toOption.getD [] = tokens := by rw [ht]; rfl
    exact readTokens_settled rd hhome _ (heq ▸ hread)
  · obtain ⟨rfl, rfl⟩ := Prod.mk.inj hread
    exact ⟨.refl, nofun⟩

/-- The tokens of an accepted file. -/
theorem Registry.exists_tokens {reg reg' : Registry} {source : Source} {p : Program}
    (h : reg.read source = (.ok p, reg')) :
    ∃ tokens, source.tokens = .ok tokens ∧ reg.readTokens source tokens = (.ok p, reg') := by
  unfold Registry.read at h
  split at h
  · exact ⟨_, ‹_›, h⟩
  · cases h

theorem Source.tokens_ofList {source : Source} {cs : List Char} (h : source.text = .ofList cs) :
    source.tokens = Token.Scan.tokens source 0 0 cs := by
  rw [Source.tokens, h, String.toList_ofList]

/-- A file is accepted if something is computed of its program and the registry at the end. The letters of the
text are given apart, since to take a long text apart is most of the work of such a computation. -/
theorem Registry.exists_of_read {α : Type} (reg : Registry) (source : Source) {cs : List Char}
    (htext : source.text = .ofList cs) (f : Program → Registry → α) {x : α}
    (h : ((Token.Scan.tokens source 0 0 cs).toOption.bind fun tokens =>
      (reg.readTokens source tokens).1.toOption.map (f · (reg.readTokens source tokens).2)) = some x) :
    ∃ p reg', reg.read source = (.ok p, reg') ∧ f p reg' = x := by
  obtain ⟨tokens, htokens, h⟩ := Option.bind_eq_some_iff.mp h
  rw [Registry.read, Source.tokens_ofList htext, toOption_eq_some.mp htokens]
  dsimp only
  generalize reg.readTokens source tokens = out at h
  obtain ⟨d | p, reg'⟩ := out
  · cases h
  · exact ⟨p, reg', rfl, Option.some.inj h⟩

end OnePass
