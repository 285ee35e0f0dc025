import OnePass.Text.Join
import OnePass.Text.Quoted

/-!
Values in the JSON format, with the members of an object in the order in which they were given, and
their text with one element or member a line.
-/

namespace OnePass

inductive Json where
  | null
  | bool (value : Bool)
  | number (value : Nat)
  | string (value : String)
  | array (elements : List Json)
  | object (members : List (String × Json))

namespace Json

def option {α : Type} (encode : α → Json) : Option α → Json
  | some a => encode a
  | none => null

/-- A character inside a string. Only quotes, backslashes and control characters are escaped. -/
def charText (c : Char) : String :=
  if c = '"' then "\\\""
  else if c = '\\' then "\\\\"
  else if c = '\n' then "\\n"
  else if c = '\r' then "\\r"
  else if c = '\t' then "\\t"
  else if c = '\x08' then "\\b"
  else if c = '\x0c' then "\\f"
  else if c.toNat < 16 then "\\u000" ++ hexadecimal c.toNat
  else if c.toNat < 32 then "\\u00" ++ hexadecimal c.toNat
  else c.toString

def stringText (text : String) : String :=
  "\"" ++ String.join (text.toList.map charText) ++ "\""

/-- Lines between brackets, one level further in than the brackets; nothing between them if there are
no lines. -/
def bracketed (opening closing margin : String) (lines : List String) : String :=
  match lines with
  | [] => opening ++ closing
  | _ => opening ++ "\n" ++ join ",\n" (lines.map fun line => margin ++ "  " ++ line)
      ++ "\n" ++ margin ++ closing

mutual

def text (margin : String) : Json → String
  | null => "null"
  | bool value => if value then "true" else "false"
  | number value => toString value
  | string value => stringText value
  | array elements => bracketed "[" "]" margin (texts (margin ++ "  ") elements)
  | object members => bracketed "\x7b" "\x7d" margin (memberTexts (margin ++ "  ") members)

def texts (margin : String) : List Json → List String
  | [] => []
  | element :: rest => text margin element :: texts margin rest

def memberTexts (margin : String) : List (String × Json) → List String
  | [] => []
  | (key, value) :: rest =>
    (stringText key ++ ": " ++ text margin value) :: memberTexts margin rest

end

end Json
end OnePass
