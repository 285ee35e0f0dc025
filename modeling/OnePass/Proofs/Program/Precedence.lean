import OnePass.Proofs.Program.Resolution
import OnePass.Proofs.Token.Extent

/-!
Variables are declared before they are used. What is looked up while a file is read finds only what has been
entered by then, and a variable is entered behind its name; so the name stands in front of the use. The one
exception is a call for which nothing was found when it was read: it is settled when all of the file is
known, and may then be given a variable that is declared behind it.
-/

namespace OnePass

open Grammar

/-! ### What has been entered -/

namespace Registry

variable {r : Registry} {id : ScopeId}

theorem mem_variablesIn {v : Variable} : v ∈ r.variablesIn id ↔ .variable v ∈ r.definitions id := by
  unfold variablesIn
  rw [List.mem_filterMap]
  constructor
  · rintro ⟨d, hd, hv⟩
    cases d <;> simp only [Definition.asVariable?, Option.some.injEq, reduceCtorEq] at hv
    exact hv ▸ hd
  · exact fun hv => ⟨_, hv, rfl⟩

section Target

variable {c : Call} {internal : String} {s : ScopeId}

theorem exactTarget?_ne_variable (names : List String) :
    r.exactTarget? c names ≠ .ok (some (.variable internal s)) := by
  intro ht
  induction names with
  | nil => cases ht
  | cons name names ih =>
      simp only [exactTarget?] at ht
      split at ht
      · cases ht
      · split at ht
        · obtain ⟨fits, _, ht⟩ := bind_eq_ok.mp ht
          cases fits with
          | true => cases ht
          | false => exact ih ht
        · exact ih ht

theorem onlyTarget?_ne_variable (names : List String) :
    r.onlyTarget? c names ≠ .ok (some (.variable internal s)) := by
  intro ht
  induction names with
  | nil => cases ht
  | cons name names ih =>
      obtain ⟨fs, _, ht⟩ := bind_eq_ok.mp ht
      split at ht
      · exact ih ht
      · cases ht
      · cases ht

/-- A call that is given a variable is given the one that its name is resolved to. -/
theorem exists_resolved_of_target? (ht : r.target? c = .ok (some (.variable internal s))) :
    ∃ v, r.resolveVariable? c.scope c.qualified = some (s, v) ∧ v.symbol.internal = internal := by
  obtain ⟨direct, hdirect, ht⟩ := bind_eq_ok.mp ht
  cases direct with
  | some u =>
      obtain rfl := Option.some.inj (Except.ok.inj ht)
      exact absurd hdirect (exactTarget?_ne_variable _)
  | none =>
      obtain ⟨held, hheld, ht⟩ := bind_eq_ok.mp ht
      cases held with
      | none => exact absurd ht (onlyTarget?_ne_variable _)
      | some u =>
          obtain rfl := Option.some.inj (Except.ok.inj ht)
          unfold variableTarget? at hheld
          split at hheld
          · cases hheld
          · split at hheld
            · rename_i hv
              obtain ⟨fits, _, hheld⟩ := bind_eq_ok.mp hheld
              cases fits with
              | true =>
                  cases hheld
                  exact ⟨_, hv, rfl⟩
              | false => cases hheld
            · cases hheld

end Target

end Registry

namespace Reading

variable {rd : Reading} {reg : Registry}

/-- A variable that has been entered when something is read stands in front of it. -/
theorem Begins.precedes {span : Span} {id : ScopeId} {v : Variable} (h : rd.Begins reg span)
    (hempty : ∀ id, rd.start.definitions id = [])
    (hordered : rd.tokens.Pairwise fun a b => a.span.stop ≤ b.span.start)
    (hv : .variable v ∈ reg.definitions id) : v.symbol.span.stop ≤ span.start := by
  obtain ⟨p, hleads, j, t, hj, ht, hstart⟩ := h
  rcases hleads.definition_cases hv with hv | ⟨_, op, _, enters, hop⟩
  · rw [hempty] at hv
    cases hv
  · cases op <;> cases hop
    obtain ⟨_, ⟨i, hi, u, _, hu, _, _, hspan, _⟩, _⟩ := enters
    rw [hspan, hstart]
    obtain ⟨hi', rfl⟩ := List.getElem?_eq_some_iff.mp hu
    obtain ⟨hj', rfl⟩ := List.getElem?_eq_some_iff.mp ht
    exact List.pairwise_iff_getElem.mp hordered i j hi' hj' (Nat.lt_of_lt_of_le hi hj)

end Reading

/-! ### Names and their variables -/

/-- The variable that is known by a name in a scope was declared in front of the span. -/
def Registry.Precedes (reg : Registry) (internal : String) (scope : ScopeId) (span : Span) : Prop :=
  ∃ v, reg.variableIn? scope internal = some v ∧ v.symbol.span.stop ≤ span.start

/-- If a part of a tree is the name of a variable or a call of one, it stands behind the declaration. -/
def Node.Follows (reg : Registry) : Node → Prop
  | .expr (.identifier id) | .expr (.member id ..) =>
    ∀ internal scope, id.binding = .variable internal scope → reg.Precedes internal scope id.span
  | .expr (.call c) =>
    ∀ internal scope, c.target = .variable internal scope → reg.Precedes internal scope c.span
  | _ => True

/-- A reading that begins with nothing, of tokens in their order. -/
structure Reading.Afresh (rd : Reading) : Prop where
  empty : ∀ id, rd.start.definitions id = []
  ordered : rd.tokens.Pairwise fun a b => a.span.stop ≤ b.span.start

namespace Reading

variable {rd : Reading} {reg reg₀ : Registry} {source : Source} {site : Site}

theorem Binds.precedes (hafresh : rd.Afresh) {id : Identifier} (h : rd.Binds reg₀ site.scope id)
    (hbegins : rd.Begins reg₀ id.span) (wf₀ : reg₀.WellFormed) (hk : reg₀.Knows site.scope)
    (hx : reg₀.Extends reg) {internal : String} {scope : ScopeId}
    (hb : id.binding = .variable internal scope) : reg.Precedes internal scope id.span := by
  obtain ⟨_, _, _, hbinding⟩ := h
  obtain ⟨v, hv⟩ := hb ▸ Registry.provides_of_bindingOf? wf₀ hk hbinding
  exact ⟨v, hx.variableIn?_eq_some hv,
    hbegins.precedes hafresh.empty hafresh.ordered (Registry.mem_of_variableIn? hv).1⟩

/-- The arguments of a call leave the variables around it as they are, so what the call is given was there
when its name was read. -/
theorem Aims.precedes (hafresh : rd.Afresh) {c : Call} (h : rd.Aims reg₀ site.scope c)
    (htimely : rd.Timely reg₀ site (.expr (.call c))) (wf₀ : reg₀.WellFormed) (hx : reg₀.Extends reg)
    {internal : String} {scope : ScopeId} (ht : c.target = .variable internal scope) :
    reg.Precedes internal scope c.span := by
  obtain ⟨found, hfound, htarget⟩ := h.target
  obtain rfl : found = some (.variable internal scope) := by
    cases found with
    | none => cases ht.symm.trans htarget
    | some t => exact congrArg some (htarget.symm.trans ht)
  obtain ⟨v, hv, rfl⟩ := Registry.exists_resolved_of_target? hfound
  obtain ⟨hancestor, hmem⟩ := Registry.mem_of_resolveVariable? hv
  obtain ⟨reg₁, hbegins, hk, hreach, hsame⟩ := htimely
  have known : reg₁.Knows scope := by
    obtain ⟨p, hleads, _⟩ := hbegins
    rw [show c.scope = site.scope from h.scope, hreach.grows.ancestors_eq hk] at hancestor
    exact (hleads.wellFormed rd.wellFormed).ancestors_known hk scope hancestor
  have earlier : .variable v ∈ reg₁.definitions scope :=
    Registry.mem_variablesIn.mp (hsame scope known ▸ Registry.mem_variablesIn.mpr hmem)
  exact ⟨v, hx.variableIn?_eq_some (Registry.variableIn?_of_resolveVariable? wf₀ hv),
    hbegins.precedes hafresh.empty hafresh.ordered earlier⟩

/-- A part that was built and settled follows what it names, or it is a call that was open. -/
theorem Built.follows_or_open (hafresh : rd.Afresh) {n₀ n : Node} (h : rd.Built reg site n₀)
    (hn : n₀.mapCalls (reg.settleCall source) = .ok n) :
    n.Follows reg ∨ ∃ c₀ c, n₀ = .expr (.call c₀) ∧ n = .expr (.call c) ∧ c₀.target = .deferred ∧
      c₀.span = c.span ∧ reg.target? { c with target := .deferred } = .ok (some c.target) := by
  obtain ⟨reg₀, h₀, hreach, hk, -, htimely, hf⟩ := h site n₀ .here
  have wf₀ := h₀.wellFormed rd.wellFormed
  cases n with
  | block | stmt => exact .inl trivial
  | expr =>
      obtain ⟨e, rfl, he⟩ := Node.expr_of_mapCalls hn
      cases Expr.becomes he with
      | identifier => exact .inl fun _ _ hb => Binds.precedes hafresh hf htimely wf₀ hk hreach.grows hb
      | member => exact .inl fun _ _ hb => Binds.precedes hafresh hf.1 htimely wf₀ hk hreach.grows hb
      | @call c _ hc =>
          obtain ⟨args, _, hc⟩ := Call.exists_args_of_mapCalls hc
          obtain ⟨target, rfl, ⟨_, rfl⟩ | ⟨hopen, ht⟩⟩ := Registry.settleCall_eq_ok hc
          · exact .inl fun _ _ hb => Aims.precedes hafresh hf htimely wf₀ hreach.grows hb
          · have hopen : c.target = .deferred := hopen
            exact .inr ⟨_, _, rfl, rfl, hopen, rfl, hopen ▸ ht⟩
      | literal | «variadic» | index | binary | assign | unary | construct | array | lambda => exact .inl trivial

end Reading

/-! ### Accepted files -/

namespace Registry

/-- In a file that is accepted, whatever is the name of a variable stands behind the declaration of the
variable, and so does a call of one, unless the call was open when the file had been read: such a call is
given what the registry has for it then. -/
theorem read_follows {source : Source} {p : Program} {reg : Registry}
    (hread : Registry.empty.read source = (.ok p, reg)) :
    ∃ tokens package b, source.tokens = .ok tokens ∧
      (draft source (.ofTokens source tokens)).run.run .empty = (.ok (package, b), reg) ∧
      settle reg source b = .ok p.body ∧
      ∀ site n, Occurs {} (.block p.body) site n → n.Follows reg ∨
        ∃ c₀ c, n = .expr (.call c) ∧ Occurs {} (.block b) site (.expr (.call c₀)) ∧
          c₀.target = .deferred ∧ c₀.span = c.span ∧
          reg.target? { c with target := .deferred } = .ok (some c.target) := by
  obtain ⟨tokens, htokens, hunit⟩ := exists_tokens hread
  obtain ⟨package, b, hdraft, hsettle⟩ := Grammar.exists_draft hunit
  refine ⟨tokens, package, b, htokens, hdraft, hsettle, fun site n ho => ?_⟩
  let rd : Reading := (Reading.ofWellFormed .empty).overTokens tokens fun _ _ => trivial
  have afresh : rd.Afresh :=
    ⟨fun id => by cases id <;> rfl, Source.tokens_ordered htokens⟩
  have gives : rd.Gives (draft source (.ofTokens source tokens)) .empty _ :=
    draft_gives ⟨.refl, WellFormed.empty.knows_global⟩ (.home rfl) (.ofTokens .refl)
  have built : rd.Built reg {} (.block b) := by
    have := gives.2 (package, b) (congrArg Prod.fst hdraft)
    rwa [hdraft] at this
  have hmap : (Node.block b).mapCalls (reg.settleCall source) = .ok (.block p.body) :=
    map_eq_ok.mpr ⟨p.body, hsettle, rfl⟩
  obtain ⟨n₀, ho₀, hn⟩ := Occurs.of_mapCalls (reg.retargets source) hmap ho
  refine (Reading.Built.follows_or_open afresh (Every.part built ho₀) hn).imp_right ?_
  rintro ⟨c₀, c, rfl, rfl, hopen⟩
  exact ⟨c₀, c, rfl, ho₀, hopen⟩

/-- Does a function call `f` in front of the declaration of `f`, and name it behind it? -/
def callsEarly (p : Program) (reg : Registry) : Bool :=
  match p.body with
  | ⟨[.function f], _, _⟩ => match f.body with
    | some ⟨[.expr (.call c), .variable _, .variable d], _, _⟩ => match d.value with
      | some (.identifier id) =>
        decide (c.target = .variable "f" 1 ∧ id.binding = .variable "f" 1) &&
          (reg.variableIn? 1 "f").all fun v => c.span.start < v.symbol.span.stop
      | _ => false
    | _ => false
  | _ => false

/-- A call of a variable in front of its declaration, and the name of the variable behind it. The call was
open; the name follows. -/
theorem read_follows_late :
    let source : Source := ⟨0, "unit.st",
      "fn main(): void \x7b f(1); let f = (x: i32): void -> \x7b \x7d; let g = f; \x7d"⟩
    ∃ p reg b site c id, Registry.empty.read source = (.ok p, reg) ∧ settle reg source b = .ok p.body ∧
      Occurs {} (.block p.body) site (.expr (.call c)) ∧ c.target = .variable "f" 1 ∧
      ¬(Node.expr (.call c)).Follows reg ∧
      (∃ c₀, Occurs {} (.block b) site (.expr (.call c₀)) ∧ c₀.target = .deferred ∧ c₀.span = c.span) ∧
      Occurs {} (.block p.body) site (.expr (.identifier id)) ∧ id.binding = .variable "f" 1 ∧
      reg.Precedes "f" 1 id.span := by
  intro source
  obtain ⟨p, reg, hread, hshape⟩ := exists_of_read .empty source (by rfl) callsEarly (x := true) (by decide +kernel)
  unfold callsEarly at hshape
  split at hshape
  next f scope _ hbody =>
    split at hshape
    next c _ d inner _ hb =>
      split at hshape
      next id hid =>
        obtain ⟨htargets, hlate⟩ := Bool.and_eq_true_iff.mp hshape
        obtain ⟨htarget, hbinding⟩ := of_decide_eq_true htargets
        have hmain : Occurs {} (.block p.body) { scope } (.stmt (.function f)) :=
          hbody ▸ .under List.mem_cons_self .here
        have hblock := hmain.trans ((Node.stmt (.function f)).occurs_body rfl hb)
        have hcall := hblock.trans (.under List.mem_cons_self (.under List.mem_cons_self .here))
        have hident := hblock.trans (.under (List.mem_of_getElem? (i := 2) rfl)
          (.under (List.mem_map.mpr ⟨_, Option.mem_toList.mpr hid, rfl⟩) .here))
        have early : ¬(Node.expr (.call c)).Follows reg := by
          intro hfollows
          obtain ⟨v, hv, hle⟩ := hfollows _ _ htarget
          rw [hv] at hlate
          exact Nat.not_lt_of_le hle (by simpa using hlate)
        obtain ⟨tokens, package, b, _, _, hsettle, hall⟩ := read_follows hread
        refine ⟨p, reg, b, _, c, id, hread, hsettle, hcall, htarget, early, ?_, hident, hbinding, ?_⟩
        · rcases hall _ _ hcall with hfollows | ⟨c₀, _, ⟨⟩, ho, hopen, hspan, _⟩
          · exact absurd hfollows early
          · exact ⟨c₀, ho, hopen, hspan⟩
        · rcases hall _ _ hident with hfollows | ⟨_, _, ⟨⟩, _⟩
          exact hfollows _ _ hbinding
      · cases hshape
    · cases hshape
  · cases hshape

end Registry

end OnePass
