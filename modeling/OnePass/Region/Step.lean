import OnePass.Region.Carve

/-!
Reading that gets somewhere. What a reader leaves of a region has a type that says it is shorter, so a
loop or a recursion over a region ends because the region does. `Left.read` goes on from what is left
and keeps the account with the region that was there at first.
-/

namespace OnePass

open Token (Kind)

/-- A region that is shorter than `r`. -/
structure Left (r : Region) extends Region where
  shorter : toRegion.size < r.size

/-- A region that is no longer than `r`. -/
structure Kept (r : Region) extends Region where
  bounded : toRegion.size ≤ r.size

instance {r : Region} : CoeOut (Left r) Region := ⟨Left.toRegion⟩

instance {r : Region} : CoeOut (Kept r) Region := ⟨Kept.toRegion⟩

/-- A value that was read from the front of `r`, and what is left. -/
abbrev Step (r : Region) (α : Type) := α × Left r

/-- As `Step`, where nothing may have been read. -/
abbrev Rest (r : Region) (α : Type) := α × Kept r

namespace Region

/-! ### Sizes -/

theorem size_le (r : Region) : r.size ≤ r.size := Nat.le_refl _

theorem size_lt (r : Region) : r.size < r.size + 1 := Nat.lt_succ_self _

theorem le_of_lt {r : Region} {n : Nat} (h : r.size < n) : r.size ≤ n := Nat.le_of_lt h

theorem not_lt_zero {r : Region} : ¬r.size < 0 := Nat.not_lt_zero _

theorem le_of_lt_succ {r : Region} {n : Nat} (h : r.size < n + 1) : r.size ≤ n :=
  Nat.le_of_lt_succ h

theorem lt_of_le {r₀ r : Region} {n : Nat} (h₀ : r₀.size ≤ r.size) (h : r.size < n) : r₀.size < n :=
  Nat.lt_of_le_of_lt h₀ h

theorem lt_of_lt_succ {r₀ r : Region} {n : Nat} (h₀ : r₀.size < r.size) (h : r.size < n + 1) :
    r₀.size < n :=
  Nat.lt_of_lt_of_le h₀ (Nat.le_of_lt_succ h)

theorem size_next_le (r : Region) : r.next.2.size ≤ r.size := by
  unfold next
  split
  · exact Nat.le_refl _
  · rename_i h
    exact Nat.le_of_lt (size_behind_lt h)

theorem enclosed_size {r inner rest : Region} {o c : Kind}
    (h : r.enclosed o c = (.ok inner, rest)) : inner.size < r.size ∧ rest.size < r.size := by
  unfold enclosed expect expectOr at h
  split at h
  · simp at h
  · rename_i t r₁ ht
    split at ht
    · obtain ⟨_, rfl⟩ := Prod.mk.inj ht
      have hle := size_next_le r
      split at h
      · simp at h
      · rename_i inside close after hs
        simp only [Prod.mk.injEq, Except.ok.injEq] at h
        obtain ⟨rfl, rfl⟩ := h
        have hlen := congrArg List.length (splitClosing_append hs)
        have h₁ := size_window_le r.next.2 inside (close :: after)
        have h₂ := size_past_le r.next.2 inside close after
        simp only [List.length_append, List.length_cons] at hlen
        simp only [size] at hle h₁ h₂ ⊢
        omega
    · simp at ht

theorem inner_size_lt {r inner rest : Region} {o c : Kind}
    (h : r.enclosed o c = (.ok inner, rest)) : inner.size < r.size :=
  (enclosed_size h).1

theorem rest_size_lt {r inner rest : Region} {o c : Kind}
    (h : r.enclosed o c = (.ok inner, rest)) : rest.size < r.size :=
  (enclosed_size h).2

theorem upTo_size {r rest : Region} {inner : Option Region} {k : Kind}
    (h : r.upTo k = (.ok inner, rest)) :
    (∀ i, inner = some i → i.size < r.size) ∧ rest.size < r.size := by
  unfold upTo at h
  split at h
  · simp at h
  · rename_i inside t after hs
    simp only [Prod.mk.injEq, Except.ok.injEq] at h
    obtain ⟨hi, rfl⟩ := h
    have hlen := congrArg List.length (splitTerminator_append hs)
    have h₁ := size_window_le r inside (t :: after)
    have h₂ := size_past_le r inside t after
    simp only [List.length_append, List.length_cons] at hlen
    simp only [size] at h₁ h₂ ⊢
    refine ⟨?_, by omega⟩
    intro i hsome
    subst hsome
    split at hi
    · simp at hi
    · simp only [Option.some.injEq] at hi
      subst hi
      omega

theorem before_size_lt {r inner rest : Region} {k : Kind} (h : r.upTo k = (.ok (some inner), rest)) :
    inner.size < r.size :=
  (upTo_size h).1 inner rfl

theorem behind_size_lt {r rest : Region} {inner : Option Region} {k : Kind}
    (h : r.upTo k = (.ok inner, rest)) : rest.size < r.size :=
  (upTo_size h).2

/-! ### Reading from the front -/

def next? (r : Region) : Option (Step r Token) :=
  match h : r.ahead with
  | [] => none
  | t :: ts => some (t, ⟨r.behind t ts, size_behind_lt h⟩)

def accept? (r : Region) (kind : Kind) : Option (Step r Token) :=
  r.next?.filter (·.1.kind == kind)

def takeOr (r : Region) (kind : Kind) (fault : Fault) : Except Diagnostic (Step r Token) :=
  match r.accept? kind with
  | some s => .ok s
  | none => .error (r.fail fault)

def take (r : Region) (kind : Kind) : Except Diagnostic (Step r Token) :=
  r.takeOr kind (r.mismatch kind)

/-- A token of the given kind, called `what` if it is missing. -/
def takeNamed (r : Region) (kind : Kind) (what : String) : Except Diagnostic (Step r Token) :=
  r.takeOr kind (.missing what)

def carve (r : Region) (opening closing : Kind) : Except Diagnostic (Left r × Left r) :=
  match h : r.enclosed opening closing with
  | (.ok inner, rest) => .ok (⟨inner, inner_size_lt h⟩, ⟨rest, rest_size_lt h⟩)
  | (.error d, _) => .error d

def carveBraces (r : Region) : Except Diagnostic (Left r × Left r) :=
  r.carve .leftBrace .rightBrace

def carveParens (r : Region) : Except Diagnostic (Left r × Left r) :=
  r.carve .leftParen .rightParen

def carveBrackets (r : Region) : Except Diagnostic (Left r × Left r) :=
  r.carve .leftBracket .rightBracket

/-- What stands before a terminator, if anything does, and what is left behind it. -/
def divide (r : Region) (terminator : Kind) : Except Diagnostic (Option (Left r) × Left r) :=
  match h : r.upTo terminator with
  | (.ok (some inner), rest) => .ok (some ⟨inner, before_size_lt h⟩, ⟨rest, behind_size_lt h⟩)
  | (.ok none, rest) => .ok (none, ⟨rest, behind_size_lt h⟩)
  | (.error d, _) => .error d

/-- A region that must have been read to its end. -/
def finish (r : Region) : Except Diagnostic Unit :=
  if r.hasNext then .error (r.fail (.unexpectedToken r.head.lexeme)) else .ok ()

end Region

/-! ### Reading on -/

section Reading

variable {m : Type → Type} [Functor m] {r : Region} {n : Nat} {α : Type}

namespace Kept

def whole (r : Region) : Kept r := ⟨r, r.size_le⟩

theorem within (k : Kept r) (h : r.size ≤ n) : k.toRegion.size ≤ n :=
  Nat.le_trans k.bounded h

theorem lt_of_lt (k : Kept r) {r₀ : Region} (h₀ : r₀.size < k.toRegion.size) : r₀.size < r.size :=
  Nat.lt_of_lt_of_le h₀ k.bounded

def left (k : Kept r) (l : Left k.toRegion) : Left r := ⟨l.toRegion, k.lt_of_lt l.shorter⟩

def read (k : Kept r) (p : m (Step k.toRegion α)) : m (Step r α) :=
  (fun (a, l) => (a, k.left l)) <$> p

def take (k : Kept r) (kind : Kind) : Except Diagnostic (Step r Token) := k.read (k.toRegion.take kind)

end Kept

namespace Left

theorem within (l : Left r) (h : r.size ≤ n) : l.toRegion.size ≤ n :=
  Nat.le_of_lt (Nat.lt_of_lt_of_le l.shorter h)

theorem below (l : Left r) (h : r.size ≤ n) : l.toRegion.size < n :=
  Nat.lt_of_lt_of_le l.shorter h

theorem below_of_le (l : Left r) {r₀ : Region} (h₀ : r₀.size ≤ l.toRegion.size) (h : r.size ≤ n) :
    r₀.size < n :=
  Nat.lt_of_le_of_lt h₀ (l.below h)

def kept (l : Left r) : Kept r := ⟨l.toRegion, l.within r.size_le⟩

def left (l : Left r) (l' : Left l.toRegion) : Left r :=
  ⟨l'.toRegion, l'.below (l.within r.size_le)⟩

def leftOfKept (l : Left r) (k : Kept l.toRegion) : Left r :=
  ⟨k.toRegion, l.below_of_le k.bounded r.size_le⟩

def read (l : Left r) (p : m (Step l.toRegion α)) : m (Step r α) :=
  (fun (a, l') => (a, l.left l')) <$> p

def next? (l : Left r) : Option (Step r Token) := l.read l.toRegion.next?

def accept? (l : Left r) (kind : Kind) : Option (Step r Token) := l.read (l.toRegion.accept? kind)

def take (l : Left r) (kind : Kind) : Except Diagnostic (Step r Token) := l.read (l.toRegion.take kind)

def takeNamed (l : Left r) (kind : Kind) (what : String) : Except Diagnostic (Step r Token) :=
  l.read (l.toRegion.takeNamed kind what)

/-- The next token if it is of the given kind; otherwise nothing is read. -/
def optional (l : Left r) (kind : Kind) : Step r (Option Token) :=
  match l.accept? kind with
  | some (t, rest) => (some t, rest)
  | none => (none, l)

def both (l : Left r) (p : m (Left l.toRegion × Left l.toRegion)) : m (Left r × Left r) :=
  (fun (inner, rest) => (l.left inner, l.left rest)) <$> p

def carveBraces (l : Left r) : Except Diagnostic (Left r × Left r) := l.both l.toRegion.carveBraces

def carveParens (l : Left r) : Except Diagnostic (Left r × Left r) := l.both l.toRegion.carveParens

def divide (l : Left r) (terminator : Kind) : Except Diagnostic (Option (Left r) × Left r) :=
  (fun (inner, rest) => (inner.map l.left, l.left rest)) <$> l.toRegion.divide terminator

end Left

end Reading

/-! ### Loops -/

section Loops

variable {m : Type → Type} [Monad m] {α σ : Type}

/-- Repeats `step` until it declines. Each round leaves less to read, so `k` rounds are enough for a
region of size `k`. -/
def iterate {n : Nat} (step : (r : Region) → r.size ≤ n → σ → m (Option (Step r σ))) :
    (k : Nat) → (r : Region) → r.size ≤ k → r.size ≤ n → σ → m (Rest r σ)
  | k, r, hk, hn, s => do
    match ← step r hn s with
    | none => return (s, .whole r)
    | some (s', l) =>
      match k, hk with
      | 0, hk => absurd (l.below hk) (Nat.not_lt_zero _)
      | k + 1, hk =>
        let (v, rest) ← iterate step k l (Nat.le_of_lt_succ (l.below hk)) (l.within hn) s'
        return (v, (l.leftOfKept rest).kept)

def loop (r : Region) (s : σ)
    (step : (r' : Region) → r'.size ≤ r.size → σ → m (Option (Step r' σ))) : m (Rest r σ) :=
  iterate step r.size r r.size_le r.size_le s

def Left.loop {r : Region} {n : Nat} (l : Left r) (h : r.size ≤ n) (s : σ)
    (step : (r' : Region) → r'.size < n → σ → m (Option (Step r' σ))) : m (Step r σ) := do
  let (v, rest) ← OnePass.loop l.toRegion s fun r₀ h₀ => step r₀ (l.below_of_le h₀ h)
  return (v, l.leftOfKept rest)

variable [MonadExceptOf Diagnostic m]

/-- Reads a whole region as items with commas between them; a comma behind the last is allowed. An item
is told those before it. -/
def items (r : Region) (item : (r' : Region) → r'.size ≤ r.size → List α → m (Step r' α)) :
    m (List α) := do
  let (all, _) ← loop r [] fun r₀ h₀ before => do
    if !r₀.hasNext then return none
    let (a, r₁) ← item r₀ h₀ before
    match r₁.accept? .comma with
    | some (_, r₂) => return some (before ++ [a], r₂)
    | none =>
      if r₁.hasNext then throw (r₁.fail (.unexpectedToken r₁.head.lexeme))
      return some (before ++ [a], r₁)
  return all

def Left.items {r : Region} {n : Nat} (l : Left r) (h : r.size ≤ n)
    (item : (r' : Region) → r'.size < n → List α → m (Step r' α)) : m (List α) :=
  OnePass.items l.toRegion fun r₀ h₀ => item r₀ (l.below_of_le h₀ h)

end Loops

end OnePass
