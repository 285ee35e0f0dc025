import OnePass.Ty.Primitive

/-!
The kinds of tokens: keywords, names, literals, operators and delimiters. `Kind.text` is what a
diagnostic calls a kind; for a keyword, an operator or a delimiter that is its spelling.
-/

namespace OnePass
namespace Token

inductive Kind where
  | kwFn | kwLet | kwConst | kwIf | kwElse | kwFor | kwWhile | kwReturn | kwBreak | kwContinue
  | kwStruct | kwEnum | kwModule | kwPackage | kwImport | kwExtern | kwAsync | kwPublic | kwPrivate
  | kwTrue | kwFalse | kwNil
  | primitive
  | identifier
  | integer
  /-- An integer with the suffix `L`. -/
  | longInteger
  | float
  /-- A float with the suffix `D`. -/
  | doubleFloat
  | string | char
  | plus | minus | star | starStar | slash | percent
  | assign | equal | notEqual | less | lessEqual | greater | greaterEqual
  | andAnd | orOr | bang | ampersand | bar | caret | tilde | shiftLeft | shiftRight
  | plusPlus | minusMinus
  | plusAssign | minusAssign | starAssign | slashAssign | percentAssign
  | andAssign | orAssign | caretAssign
  | arrow | dot | ellipsis | colonColon | question
  | leftParen | rightParen | leftBrace | rightBrace | leftBracket | rightBracket
  | comma | colon | semicolon
  | comment
  /-- The end of a file or of a region of it. -/
  | eof
deriving DecidableEq

namespace Kind

/-- The words that are not identifiers, built-in type names apart. -/
def keywords : List (String × Kind) :=
  [("fn", kwFn), ("let", kwLet), ("const", kwConst), ("if", kwIf), ("else", kwElse),
   ("for", kwFor), ("while", kwWhile), ("return", kwReturn), ("break", kwBreak),
   ("continue", kwContinue), ("struct", kwStruct), ("enum", kwEnum), ("module", kwModule),
   ("package", kwPackage), ("import", kwImport), ("use", kwImport), ("extern", kwExtern),
   ("async", kwAsync), ("public", kwPublic), ("private", kwPrivate), ("true", kwTrue),
   ("false", kwFalse), ("nil", kwNil)]

def ofWord? (word : String) : Option Kind :=
  match keywords.lookup word with
  | some kind => some kind
  | none => (Primitive.ofWord? word).map fun _ => primitive

/-- Operators and delimiters by spelling. A spelling stands before those that it begins with, so the
first one that a text begins with is the longest. -/
def operators : List (String × Kind) :=
  [("...", ellipsis),
   ("**", starStar), ("++", plusPlus), ("--", minusMinus), ("->", arrow), ("::", colonColon),
   ("==", equal), ("!=", notEqual), ("<=", lessEqual), (">=", greaterEqual),
   ("<<", shiftLeft), (">>", shiftRight), ("&&", andAnd), ("||", orOr),
   ("+=", plusAssign), ("-=", minusAssign), ("*=", starAssign), ("/=", slashAssign),
   ("%=", percentAssign), ("&=", andAssign), ("|=", orAssign), ("^=", caretAssign),
   ("+", plus), ("-", minus), ("*", star), ("/", slash), ("%", percent), ("=", assign),
   ("!", bang), ("<", less), (">", greater), ("&", ampersand), ("|", bar), ("^", caret),
   ("~", tilde), (".", dot), (":", colon), ("?", question),
   ("(", leftParen), (")", rightParen), ("\x7b", leftBrace), ("\x7d", rightBrace),
   ("[", leftBracket), ("]", rightBracket), (",", comma), (";", semicolon)]

def text : Kind → String
  | kwFn => "fn" | kwLet => "let" | kwConst => "const" | kwIf => "if" | kwElse => "else"
  | kwFor => "for" | kwWhile => "while" | kwReturn => "return" | kwBreak => "break"
  | kwContinue => "continue" | kwStruct => "struct" | kwEnum => "enum" | kwModule => "module"
  | kwPackage => "package" | kwImport => "import" | kwExtern => "extern" | kwAsync => "async"
  | kwPublic => "public" | kwPrivate => "private" | kwTrue => "true" | kwFalse => "false"
  | kwNil => "nil"
  | primitive => "type"
  | identifier => "identifier"
  | integer | longInteger => "integer literal"
  | float | doubleFloat => "float literal"
  | string => "string literal"
  | char => "char literal"
  | plus => "+" | minus => "-" | star => "*" | starStar => "**" | slash => "/" | percent => "%"
  | assign => "=" | equal => "==" | notEqual => "!=" | less => "<" | lessEqual => "<="
  | greater => ">" | greaterEqual => ">=" | andAnd => "&&" | orOr => "||" | bang => "!"
  | ampersand => "&" | bar => "|" | caret => "^" | tilde => "~" | shiftLeft => "<<"
  | shiftRight => ">>" | plusPlus => "++" | minusMinus => "--"
  | plusAssign => "+=" | minusAssign => "-=" | starAssign => "*=" | slashAssign => "/="
  | percentAssign => "%=" | andAssign => "&=" | orAssign => "|=" | caretAssign => "^="
  | arrow => "->" | dot => "." | ellipsis => "..." | colonColon => "::" | question => "?"
  | leftParen => "(" | rightParen => ")" | leftBrace => "\x7b" | rightBrace => "\x7d"
  | leftBracket => "[" | rightBracket => "]" | comma => "," | colon => ":" | semicolon => ";"
  | comment => "comment"
  | eof => "end of file"

def precedence? : Kind → Option Nat
  | plus | minus => some 1
  | star | slash | percent => some 2
  | starStar => some 3
  | _ => none

def isComparison : Kind → Bool
  | equal | notEqual | less | lessEqual | greater | greaterEqual => true
  | _ => false

def isLogical : Kind → Bool
  | andAnd | orOr => true
  | _ => false

def isAssignment : Kind → Bool
  | assign | plusAssign | minusAssign | starAssign | slashAssign | percentAssign
  | andAssign | orAssign | caretAssign => true
  | _ => false

def isLiteral : Kind → Bool
  | integer | longInteger | float | doubleFloat | string | char | kwTrue | kwFalse | kwNil => true
  | _ => false

end Kind
end Token
end OnePass
