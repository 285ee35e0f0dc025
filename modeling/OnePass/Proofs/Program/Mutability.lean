import OnePass.Proofs.Grammar.Unit
import OnePass.Proofs.Typing.Check

/-!
What may be written to. A variable may be written to if it was declared by `let`, and only then: neither
constants, with or without a type of their own, nor parameters may. In an accepted program whatever is
assigned, incremented or decremented is reached by the name of such a variable.
-/

namespace OnePass

open Typing

/-- The name that a place is reached by: the place itself, the first name of a chain of members, or the name
of an array with an index behind it. -/
def Expr.root? : Expr → Option Identifier
  | .identifier id | .member id .. | .index (.identifier id) .. => some id
  | _ => none

/-- Calls are not part of the name that a place is reached by. -/
theorem Expr.root?_mapCalls {g : Call → Except Diagnostic Call} {e e' : Expr} {id : Identifier}
    (h : e.mapCalls g = .ok e') (hroot : e.root? = some id) : e'.root? = some id := by
  cases Expr.becomes h with
  | identifier | member => exact hroot
  | @index a _ _ _ _ harray _ =>
      cases a <;> cases hroot
      cases Expr.becomes harray
      rfl
  | literal | «variadic» | call | binary | unary | assign | construct | array | lambda => cases hroot

/-- The place is reached by the name of a variable that may be written to. -/
def Registry.MayWrite (reg : Registry) (place : Expr) : Prop :=
  ∃ id internal scope v, place.root? = some id ∧ id.binding = .variable internal scope ∧
    reg.variableIn? scope internal = some v ∧ v.type.isMutable = true

theorem Registry.MayWrite.later {reg reg' : Registry} {place place' : Expr}
    {g : Call → Except Diagnostic Call} (h : reg.MayWrite place) (hx : reg.Extends reg')
    (hmap : place.mapCalls g = .ok place') : reg'.MayWrite place' := by
  obtain ⟨id, internal, scope, v, hroot, hbinding, hv, hmutable⟩ := h
  exact ⟨id, internal, scope, v, Expr.root?_mapCalls hmap hroot, hbinding, hx.variableIn?_eq_some hv, hmutable⟩

/-! ### Checks -/

namespace Typing.Setting

variable {s : Setting}

/-- A slot belongs to the variable that the place is reached by. -/
theorem variable_of_slot? {target : Expr} {slot : Slot} (h : s.slot? target = .ok (some slot)) :
    ∃ id internal scope v, target.root? = some id ∧ id.binding = .variable internal scope ∧
      s.reg.variableIn? scope internal = some v ∧ v.type = slot.variableType := by
  unfold slot? at h
  dsimp only at h
  split at h
  · rename_i id isWhole hroot
    have root : target.root? = some id := by
      split at hroot <;> cases hroot <;> rfl
    split at h <;> obtain ⟨part, _, h⟩ := bind_eq_ok.mp h
    all_goals
      split at h
      · rename_i internal scope hbinding
        obtain ⟨v, hv, rfl⟩ := Option.map_eq_some_iff.mp (Except.ok.inj h)
        exact ⟨id, internal, scope, v, root, hbinding, hv, rfl⟩
      · cases h
  · cases h

/-- What has a slot that may change may be written to. -/
theorem mayWrite_of_slot? {target : Expr} {slot : Slot} (h : s.slot? target = .ok (some slot))
    (hmutable : slot.variableType.isMutable = true) : s.reg.MayWrite target := by
  obtain ⟨id, internal, scope, v, hroot, hbinding, hv, htype⟩ := variable_of_slot? h
  exact ⟨id, internal, scope, v, hroot, hbinding, hv, htype ▸ hmutable⟩

theorem mayWrite_of_checkAssignment {target value : Expr} {span : Span}
    (h : s.checkAssignment target value span = .ok ()) : s.reg.MayWrite target := by
  obtain ⟨slot, hslot, hmutable, _⟩ := slot_of_checkAssignment h
  exact mayWrite_of_slot? hslot hmutable

theorem mayWrite_of_checkIncrement {target : Expr} (h : s.checkIncrement target = .ok ()) :
    s.reg.MayWrite target := by
  obtain ⟨slot, hslot, h⟩ := bind_eq_ok.mp h
  cases slot with
  | none => cases h
  | some slot =>
      dsimp only at h
      split at h
      · cases h
      · rename_i hmutable
        exact mayWrite_of_slot? (locate_eq_ok.mp hslot) (by simpa using hmutable)

end Typing.Setting

/-! ### Programs -/

/-- What a part of a tree writes to may be written to, its own parts aside. A declaration says of its
variable whether it may be, and no parameter may. -/
def Node.WritesTo (reg : Registry) : Node → Prop
  | .expr (.assign _ target ..) => reg.MayWrite target
  | .expr (.unary op operand _) =>
    op ∈ [UnaryOp.preIncrement, .preDecrement, .postIncrement, .postDecrement] → reg.MayWrite operand
  | .stmt (.variable d) => d.type.isMutable = d.mutable
  | .stmt (.function f) | .expr (.lambda f) => ∀ p ∈ f.params, p.type.isMutable = false
  | _ => True

namespace Reading

variable {rd : Reading} {reg : Registry} {source : Source} {site : Site}

theorem Signs.isMutable_eq {f : Routine} (h : rd.Signs f) : ∀ p ∈ f.params, p.type.isMutable = false :=
  fun p hp => (h.params p hp).isMutable_eq

theorem Settled.writesTo {n : Node} (h : rd.Settled reg source site n) : n.WritesTo reg := by
  obtain ⟨n₀, reg₀, _, _, hx, _, hf, hn⟩ := h.formed
  cases n with
  | block => trivial
  | stmt =>
      obtain ⟨s, rfl, hs⟩ := Node.stmt_of_mapCalls hn
      cases Stmt.becomes hs with
      | @«variable» d _ hd =>
          obtain ⟨value, rfl, _⟩ := VarDecl.mapCalls_eq_ok hd
          obtain ⟨_, _, type, _, _, _, htype, _, _, htypes⟩ := hf
          change d.type.isMutable = d.mutable
          rw [htype, Ty.isMutable_withFlags, Grammar.types_isMutable htypes, Bool.false_or]
      | @function f _ hf' =>
          obtain ⟨b, rfl, _⟩ := Routine.mapCalls_eq_ok hf'
          exact Signs.isMutable_eq (f := f) hf.1
      | package | imports | «module» | struct | enum | cond | «while» | «for» | «return» | «break» | «continue»
      | block | expr => trivial
  | expr =>
      obtain ⟨e, rfl, he⟩ := Node.expr_of_mapCalls hn
      cases Expr.becomes he with
      | assign htarget =>
          obtain ⟨_, _, hcheck⟩ := hf
          exact (Setting.mayWrite_of_checkAssignment hcheck).later hx htarget
      | unary hoperand =>
          intro hop
          obtain ⟨_, hcheck⟩ := hf hop
          exact (Setting.mayWrite_of_checkIncrement hcheck).later hx hoperand
      | @lambda f _ hf' =>
          obtain ⟨b, rfl, _⟩ := Routine.mapCalls_eq_ok hf'
          exact Signs.isMutable_eq (f := f) hf
      | literal | identifier | «variadic» | member | index | call | binary | construct | array => trivial

/-- A variable that is there after reading was there before, or the tokens declare it. -/
theorem Leads.variable_cases {p : Nat} {reg' : Registry} (h : rd.Leads p reg reg') {id : ScopeId}
    {v : Variable} (hv : .variable v ∈ reg'.definitions id) :
    .variable v ∈ reg.definitions id ∨ ∃ i, v.DeclaredAt rd.tokens i := by
  rcases h.definition_cases hv with hv | ⟨_, op, _, enters, hop⟩
  · exact .inl hv
  · cases op <;> cases hop
    obtain ⟨_, ⟨i, _, hdeclared⟩, _⟩ := enters
    exact .inr ⟨i, hdeclared⟩

end Reading

namespace Registry

/-- Whatever an accepted program assigns, increments or decrements is reached by the name of a variable that
may be written to at the end. Each variable that has been entered, also on the way to a failure, stands in
the tokens behind `let`, `const`, a parenthesis or a comma, and it may be written to just if that is `let`. -/
theorem readTokens_writes {reg reg' : Registry} {source : Source} {tokens : List Token}
    {x : Except Diagnostic Program} (h : reg.WellFormed)
    (hread : reg.readTokens source tokens = (x, reg')) :
    (∀ p, x = .ok p → Every (fun _ n => n.WritesTo reg') {} (.block p.body)) ∧
      ∀ id v, .variable v ∈ reg'.definitions id →
        .variable v ∈ reg.definitions id ∨ ∃ i, v.DeclaredAt tokens i := by
  obtain ⟨hreach, settled⟩ := readTokens_settled (.ofWellFormed h) rfl (fun _ _ => trivial) hread
  exact ⟨fun p hp => (settled p hp).imp fun _ _ hn => hn.writesTo, fun _ _ hv => hreach.variable_cases hv⟩

/-- Variables of all kinds: one in the head of a loop, constants with and without a type, parameters of
functions with and without a name. A field, an element and a variable are written to. -/
theorem readTokens_writes_fields :
    let source : Source := ⟨0, "unit.st",
      "struct P \x7b x: i32; \x7d fn f(n: i32, p: P): void \x7b
        let q = p; const a: i32[] = [n]; let b = a; const g = (k: i32): i32 -> \x7b return k; \x7d;
        for (let i = 0; i < n; i++) \x7b b[i] = g(i); \x7d q.x = 1; \x7d"⟩
    let bindings (reg : Registry) : List (String × Bool) := reg.scopes.flatMap fun scope =>
      (scope.definitions.filterMap (·.asVariable?)).map fun v => (v.symbol.name, v.type.isMutable)
    ∃ tokens p reg, Registry.empty.readTokens source tokens = (.ok p, reg) ∧
      bindings reg = [("n", false), ("p", false), ("q", true), ("a", false), ("b", true), ("g", false),
        ("k", false), ("i", true)] ∧
      Every (fun _ n => n.WritesTo reg) {} (.block p.body) ∧
      ∀ id v, .variable v ∈ reg.definitions id → ∃ i, v.DeclaredAt tokens i := by
  intro source bindings
  obtain ⟨p, reg, hread, hbindings⟩ := exists_of_read .empty source (by rfl) (fun _ reg => bindings reg)
    (x := [("n", false), ("p", false), ("q", true), ("a", false), ("b", true), ("g", false), ("k", false),
      ("i", true)]) (by decide +kernel)
  obtain ⟨tokens, _, hread⟩ := exists_tokens hread
  obtain ⟨hwrites, hdeclared⟩ := readTokens_writes .empty hread
  refine ⟨tokens, p, reg, hread, hbindings, hwrites p rfl, fun id v hv => ?_⟩
  refine (hdeclared id v hv).resolve_left fun hold => ?_
  cases id <;> cases hold

end Registry
end OnePass
