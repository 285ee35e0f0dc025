/-!
Outlines of structured values: named records, named tuples and lists, down to atoms whose text is
given. Each part stands on a line of its own, one level further in, and ends in a comma.
-/

namespace OnePass

inductive Outline where
  | atom (text : String)
  | record (name : String) (fields : List (String × Outline))
  | tuple (name : String) (items : List Outline)
  | list (items : List Outline)

namespace Outline

def option {α : Type} (outline : α → Outline) : Option α → Outline
  | some a => tuple "Some" [outline a]
  | none => atom "None"

def number (n : Nat) : Outline := atom (toString n)

def bool (b : Bool) : Outline := atom (if b then "true" else "false")

def enclosed (opening closing margin : String) (lines : List String) : String :=
  opening ++ "\n" ++ String.join (lines.map fun line => margin ++ "    " ++ line ++ ",\n")
    ++ margin ++ closing

mutual

def text (margin : String) : Outline → String
  | atom text => text
  | record name fields => enclosed (name ++ " \x7b") "\x7d" margin (fieldTexts (margin ++ "    ") fields)
  | tuple name items => enclosed (name ++ "(") ")" margin (texts (margin ++ "    ") items)
  | list [] => "[]"
  | list items => enclosed "[" "]" margin (texts (margin ++ "    ") items)

def texts (margin : String) : List Outline → List String
  | [] => []
  | item :: rest => text margin item :: texts margin rest

def fieldTexts (margin : String) : List (String × Outline) → List String
  | [] => []
  | (name, value) :: rest => (name ++ ": " ++ text margin value) :: fieldTexts margin rest

end

end Outline
end OnePass
