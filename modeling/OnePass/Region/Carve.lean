import OnePass.Region.Basic

/-!
Regions inside regions: a number of tokens, the inside of a pair of delimiters, everything up to a
terminator. A carved region is read on its own; its sentinel stands where the token behind it begins,
a comment counting as a token.
-/

namespace OnePass
namespace Region

open Token (Kind)

def window (r : Region) (inside following : List Token) : Region :=
  let stop := match following with
    | [] => r.stop.span.opening
    | t :: _ => t.span.opening
  { source := r.source
    ahead := settle inside
    stop := .sentinel stop
    last := match inside with
      | [] => stop
      | t :: _ => t.span.opening
    taken := 0 }

def past (r : Region) (inside : List Token) (t : Token) (rest : List Token) : Region :=
  { r with
    ahead := settle rest
    last := t.span
    taken := r.taken + (significant (inside ++ [t])).length }

/-! ### A number of tokens -/

/-- The first `n` tokens with the comments between them, and what is left. -/
def splitTokens : Nat → List Token → List Token × List Token
  | 0, ts => ([], ts)
  | _ + 1, [] => ([], [])
  | n + 1, t :: ts =>
    let (inside, rest) := splitTokens (if t.isComment then n + 1 else n) ts
    (t :: inside, rest)

/-- The region from where `first` begins to where `following` does, each being what is ahead from some
token on. -/
def between (r : Region) (first following : List Token) : Region :=
  { r.window (first.take (first.length - following.length)) following with
    last := (first.headD r.stop).span.opening
    reversed := r.reversed || first.length < following.length }

/-- The `length` tokens that follow the next `offset`. Both are machine words, and so is their sum, which
may wrap. -/
def subset (r : Region) (offset length : UInt64) : Except Diagnostic Region :=
  if r.remaining < (offset + length).toNat then
    .error (r.fail (.subsetTooLong length.toNat offset.toNat r.remaining))
  else
    let first := dropTokens offset.toNat r.ahead
    let following :=
      if length = 0 then first else (splitTokens ((offset + length - 1).toNat + 1) r.ahead).2
    .ok (r.between first following)

/-! ### Delimiters -/

/-- Splits at the token that closes the delimiter already open, where `depth` more have been opened
since. -/
def splitClosing (opening closing : Kind) :
    (depth : Nat) → List Token → Option (List Token × Token × List Token)
  | _, [] => none
  | depth, t :: ts =>
    if t.kind = opening then
      (splitClosing opening closing (depth + 1) ts).map fun (inside, c, rest) =>
        (t :: inside, c, rest)
    else if t.kind = closing then
      match depth with
      | 0 => some ([], t, ts)
      | depth + 1 =>
        (splitClosing opening closing depth ts).map fun (inside, c, rest) => (t :: inside, c, rest)
    else
      (splitClosing opening closing depth ts).map fun (inside, c, rest) => (t :: inside, c, rest)

/-- Carves out what stands between two delimiters, and the region behind them. Where the closing one
is missing, the opening one has been read. -/
def enclosed (r : Region) (opening closing : Kind) : Except Diagnostic Region × Region :=
  match r.expect opening with
  | (.error d, r₁) => (.error d, r₁)
  | (.ok t, r₁) =>
    match splitClosing opening closing 0 r₁.ahead with
    | none => (.error (.located (.unmatched opening closing) r.source t.span), r₁)
    | some (inside, c, rest) => (.ok (r₁.window inside (c :: rest)), r₁.past inside c rest)

/-! ### Terminators -/

/-- The bracket depth behind a token. A bracket too many closes nothing. -/
def depthAfter (depth : Nat) : Kind → Nat
  | .leftParen | .leftBrace | .leftBracket => depth + 1
  | .rightParen | .rightBrace | .rightBracket => depth - 1
  | _ => depth

/-- Splits at the first token of kind `terminator` that is in no brackets. -/
def splitTerminator (terminator : Kind) :
    (depth : Nat) → List Token → Option (List Token × Token × List Token)
  | _, [] => none
  | depth, t :: ts =>
    if t.kind = terminator ∧ depth = 0 then some ([], t, ts)
    else
      (splitTerminator terminator (depthAfter depth t.kind) ts).map fun (inside, c, rest) =>
        (t :: inside, c, rest)

/-- Carves out what stands before a terminator, and the region behind it. There is no region where
nothing stands before it. -/
def upTo (r : Region) (terminator : Kind) : Except Diagnostic (Option Region) × Region :=
  match splitTerminator terminator 0 r.ahead with
  | none => (.error (r.fail (.expectedAtEnd terminator)), r)
  | some (inside, t, rest) =>
    (.ok (if inside.isEmpty then none else some (r.window inside (t :: rest))), r.past inside t rest)

/-! ### Nothing is lost -/

theorem splitClosing_append {o c : Kind} {depth : Nat} {ts inside rest : List Token} {t : Token}
    (h : splitClosing o c depth ts = some (inside, t, rest)) : inside ++ t :: rest = ts := by
  fun_induction splitClosing o c depth ts generalizing inside t rest <;>
    grind [Option.map_eq_some_iff]

theorem splitTerminator_append {k : Kind} {depth : Nat} {ts inside rest : List Token} {t : Token}
    (h : splitTerminator k depth ts = some (inside, t, rest)) : inside ++ t :: rest = ts := by
  fun_induction splitTerminator k depth ts generalizing inside t rest <;>
    grind [Option.map_eq_some_iff]

theorem size_window_le (r : Region) (inside following : List Token) :
    (r.window inside following).size ≤ inside.length :=
  length_settle_le inside

theorem size_past_le (r : Region) (inside : List Token) (t : Token) (rest : List Token) :
    (r.past inside t rest).size ≤ rest.length :=
  length_settle_le rest

end Region
end OnePass
