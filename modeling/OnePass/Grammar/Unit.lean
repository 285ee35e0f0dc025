import OnePass.Grammar.Statements
import OnePass.Token.Scan
import OnePass.Tree.Calls

/-!
Whole units. The productions are tied together here, and a unit is read to its end; then the calls that
were left open get their targets.
-/

namespace OnePass
namespace Grammar

variable {m : Type → Type} [Monad m] [MonadExceptOf Diagnostic m] [MonadStateOf Registry m]
  [MonadLiftT (Except Diagnostic) m] [Account m] {n : Nat}

def Below.restrict {k : Nat} (below : Below m n) (h : k ≤ n) : Below m k where
  statement ctx r hr := below.statement ctx r (Nat.lt_of_lt_of_le hr h)
  expression ctx r hr := below.expression ctx r (Nat.lt_of_lt_of_le hr h)
  unary ctx r hr := below.unary ctx r (Nat.lt_of_lt_of_le hr h)
  power ctx r hr := below.power ctx r (Nat.lt_of_lt_of_le hr h)

/-- The productions for all regions of size less than `n`. A production sees no further than the region
it is called on. -/
def below : (n : Nat) → Below m n
  | 0 =>
    { statement := fun _ _ h => absurd h Region.not_lt_zero
      expression := fun _ _ h => absurd h Region.not_lt_zero
      unary := fun _ _ h => absurd h Region.not_lt_zero
      power := fun _ _ h => absurd h Region.not_lt_zero }
  | n + 1 =>
    let inner (r : Region) (h : r.size < n + 1) : Below m r.size :=
      (below n).restrict (Region.le_of_lt_succ h)
    { statement := fun ctx r h => statement (inner r h) ctx r r.size_le
      expression := fun ctx r h => expression (inner r h) ctx r r.size_le
      unary := fun ctx r h => unary (inner r h) ctx r r.size_le
      power := fun ctx r h => power (inner r h) ctx r r.size_le }

/-- The bound does not matter, as long as it is one for both. -/
theorem restrict_below_eq {k n n' : Nat} (hn : k ≤ n) (hn' : k ≤ n') :
    (below n : Below m n).restrict hn = (below n').restrict hn' := by
  induction n generalizing k n' with
  | zero =>
    obtain rfl := Nat.le_zero.mp hn
    simp only [Below.restrict, Below.mk.injEq]
    refine ⟨?_, ?_, ?_, ?_⟩ <;> funext ctx r h <;> exact absurd h (Nat.not_lt_zero _)
  | succ n ih =>
    cases n' with
    | zero =>
      obtain rfl := Nat.le_zero.mp hn'
      simp only [Below.restrict, Below.mk.injEq]
      refine ⟨?_, ?_, ?_, ?_⟩ <;> funext ctx r h <;> exact absurd h (Nat.not_lt_zero _)
    | succ n' =>
      have same (r : Region) (h : r.size < k) :
          (below n : Below m n).restrict (Nat.le_of_lt_succ (Nat.lt_of_lt_of_le h hn)) =
            (below n').restrict (Nat.le_of_lt_succ (Nat.lt_of_lt_of_le h hn')) := ih _ _
      simp only [Below.restrict, below, Below.mk.injEq]
      refine ⟨?_, ?_, ?_, ?_⟩ <;> funext ctx r h
      · exact congrArg (statement · ctx r r.size_le) (same r h)
      · exact congrArg (expression · ctx r r.size_le) (same r h)
      · exact congrArg (unary · ctx r r.size_le) (same r h)
      · exact congrArg (power · ctx r r.size_le) (same r h)

/-- A package: `package a::b;`. -/
def packageDecl (r : Region) : Except Diagnostic (Step r (String × Span)) := do
  let (keyword, r₁) ← r.take .kwPackage
  let (first, r₂) ← r₁.takeNamed .identifier "package name"
  let (segments, r₃) ← r₂.loop r.size_le [first.lexeme] fun r₀ _ segments => do
    let some (_, r₁) := r₀.accept? .colonColon | return none
    let (t, r₂) ← r₁.takeNamed .identifier "package name"
    return some (segments ++ [t.lexeme], r₂)
  let (_, r₄) ← r₃.take .semicolon
  return ((Name.written segments, r₄.spanFrom keyword.span), r₄)

def package? (r : Region) : Except Diagnostic (Rest r (Option (String × Span))) := do
  if !r.headIs .kwPackage then return (none, .whole r)
  let (p, rest) ← packageDecl r
  return (some p, rest.kept)

def settle (reg : Registry) (source : Source) (b : Block) : Except Diagnostic Block :=
  b.mapCalls (reg.settleCall source)

def allStatements (ctx : Context) (r : Region) : m (Rest r (List Stmt)) :=
  statements (below (r.size + 1)) ctx r r.size_lt

def unit (source : Source) (r : Region) : m Program := do
  let start := r.head.span
  let (package, r₁) ← package? r
  let (stmts, rest) ← allStatements { source } r₁
  let head := package.toList.map fun (name, span) => Stmt.package name span
  let b : Block := ⟨head ++ stmts, Registry.global, rest.spanFrom start⟩
  let b ← settle (← get) source b
  return { path := source.path, package := package.map (·.1), body := b }

end Grammar

/-- Reads the tokens of a file against a registry. The registry that is returned has in it what was
entered before a failure. -/
def Registry.readTokens (reg : Registry) (source : Source) (tokens : List Token) :
    Except Diagnostic Program × Registry :=
  (Grammar.unit source (Region.ofTokens source tokens) : Grammar.Parse Program).run.run reg

def Registry.read (reg : Registry) (source : Source) : Except Diagnostic Program × Registry :=
  match source.tokens with
  | .ok tokens => reg.readTokens source tokens
  | .error d => (.error d, reg)

end OnePass
