/-!
How many characters must be inserted, deleted or replaced to turn one text into another. The table of
all pairs of endings is computed row by row, so the work is the product of the lengths.
-/

namespace OnePass
namespace EditDistance

/-- The distances from `a :: as` to each ending of `bs`, from those of `as`. -/
def row (a : Char) : (bs : List Char) → (below : List Nat) → List Nat
  | b :: bs, d :: ds =>
    let rest := row a bs ds
    let replaced := if a = b then ds.headD 0 else ds.headD 0 + 1
    min (min (d + 1) (rest.headD 0 + 1)) replaced :: rest
  | _, d :: _ => [d + 1]
  | _, [] => []

def lengths : List Char → List Nat
  | [] => [0]
  | _ :: bs => (bs.length + 1) :: lengths bs

/-- The distances from `as` to each ending of `bs`. -/
def rows (as bs : List Char) : List Nat := as.foldr (row · bs) (lengths bs)

end EditDistance

def editDistance (s t : String) : Nat := (EditDistance.rows s.toList t.toList).headD 0

end OnePass
