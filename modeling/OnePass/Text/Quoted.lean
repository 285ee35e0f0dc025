import OnePass.Text.Shown

/-!
Texts and characters between quotes. What is written holds no line break, no bare quote of its own
kind, and only characters that are shown as they are.
-/

namespace OnePass

def hexadecimal (n : Nat) : String := String.ofList (Nat.toDigits 16 n)

def quotedChar (quote c : Char) : String :=
  if c = '\x00' then "\\0"
  else if c = '\t' then "\\t"
  else if c = '\n' then "\\n"
  else if c = '\r' then "\\r"
  else if c = '\\' ∨ c = quote then String.ofList ['\\', c]
  else if isShown c then c.toString
  else "\\u\x7b" ++ hexadecimal c.toNat ++ "\x7d"

def quotedText (text : String) : String :=
  "\"" ++ String.join (text.toList.map (quotedChar '"')) ++ "\""

def quotedLetter (c : Char) : String := "'" ++ quotedChar '\'' c ++ "'"

end OnePass
