import OnePass.Token.Kind
import OnePass.Ty.Written

/-!
What can be wrong with a program, a file or a request: one constructor a cause, with the values that
its wording needs. `Fault.message` is the only place where a cause is put into words.
-/

namespace OnePass

/-- The number of parameters that a function may have, and of arguments in a call. -/
def maxParameters : Nat := 32

/-- The number of segments that a qualified name or a chain of members may have. -/
def maxSegments : Nat := 100

/-- How deeply statements, expressions and unary operators may nest. -/
def maxDepth : Nat := 256

namespace Fault

inductive Category where
  | syntactic | typing | semantic | runtime
  | io
deriving DecidableEq

def Category.text : Category → String
  | syntactic => "Syntax"
  | typing => "Type"
  | semantic => "Semantic"
  | runtime => "Runtime"
  | io => "IO"

end Fault

/-- Why a path leads to no text. -/
inductive Obstacle where
  | missing
  /-- The path goes on below a file. -/
  | notDirectory
  | isDirectory
  | denied
deriving DecidableEq

def Obstacle.text : Obstacle → String
  | missing => "No such file or directory (os error 2)"
  | notDirectory => "Not a directory (os error 20)"
  | isDirectory => "Is a directory (os error 21)"
  | denied => "Permission denied (os error 13)"

open Token (Kind)

inductive Fault where
  -- characters
  | unterminatedComment
  | missingHexDigits
  | unknownEscape (c : Char)
  | unterminatedEscape
  | unterminatedString
  | emptyChar
  | unterminatedChar
  | unexpectedChar (c : Char)
  -- tokens
  | expectedFound (wanted : Kind) (found : String)
  | expectedAtEnd (wanted : Kind)
  /-- Something other than a single kind of token is missing. -/
  | missing (what : String)
  | notAnExpression (found : String)
  | subsetTooLong (length offset available : Nat)
  | unmatched (opening closing : Kind)
  | unexpectedToken (found : String)
  | integerOutOfRange (lexeme : String)
  | malformedFloat (lexeme : String)
  | unknownPrimitive (lexeme : String)
  | malformedLength
  -- limits
  | nestedTooDeep
  | tooManySegments
  | tooManyParameters
  | tooManyArguments
  -- placement
  | visibilityWithoutDeclaration
  | packageNotFirst
  | importNotGlobal
  | moduleInScope
  | functionInScope
  | structInScope
  | aliasInScope
  | returnOutsideFunction
  | outsideLoop (word : String)
  | variadicOutside
  | variadicNotLast
  -- declarations
  | emptyImport
  | emptyStruct
  | enumValue (member : String)
  | constantWithoutValue (name : String)
  | variableWithoutType (name : String)
  | uninferable (name : String)
  | duplicateParameter (name : String)
  | duplicateVariable (name : String) (isGlobal : Bool)
  | duplicateFunction (internal : String)
  | duplicateStruct (name : String)
  | duplicateMarker (name : String)
  | missingReturn (function : String)
  -- names
  | undefinedVariable (name : String)
  | undefinedStruct (name : String)
  | undefinedAlias (name target : String)
  | cyclicAlias (name : String)
  | functionNotFound (signature : String)
  | ambiguousCall (signature : String) (count : Nat)
  | unknownResult (function : String)
  -- types
  | primitiveWithNamed (lhs rhs : Ty)
  | incompatiblePrimitives (lhs rhs : Ty)
  | noDominantType (lhs rhs : Ty)
  | notAPointer
  | notAStruct (type : Ty)
  | noSuchMember (owner struct member : String)
  | notAnArray (type : Ty)
  | indexNotInteger (type : Ty)
  | declarationMismatch (expected actual : Ty)
  | valueFromVoid (function : String)
  | returnMismatch (function : String) (expected : Ty) (actual : Option Ty)
  -- assignments and initialisers
  | invalidTarget
  | incrementWithoutVariable
  | immutable (name : String)
  | assignmentMismatch (name : String) (expected actual : Ty)
  | tooManyMembers (struct : String) (expected actual : Nat)
  | tooFewMembers (struct : String) (expected actual : Nat)
  | unknownMember (struct member : String)
  | memberOrder (index : Nat) (expected actual : String)
  | memberMismatch (member struct : String) (expected actual : Ty)
  -- files
  | circularImport (chain : List String)
  | unreadable (path : String) (obstacle : Obstacle)
  /-- A fault found elsewhere, already in words. -/
  | reported (category : Fault.Category) (message : String)

namespace Fault

def category : Fault → Category
  | unterminatedComment | missingHexDigits | unknownEscape _ | unterminatedEscape
  | unterminatedString | emptyChar | unterminatedChar | unexpectedChar _
  | expectedFound .. | expectedAtEnd _ | missing _ | notAnExpression _ | subsetTooLong ..
  | unmatched .. | unexpectedToken _ | integerOutOfRange _ | malformedFloat _
  | unknownPrimitive _ | malformedLength
  | nestedTooDeep | tooManySegments | tooManyParameters | tooManyArguments
  | visibilityWithoutDeclaration | variadicNotLast
  | emptyImport | enumValue _ | constantWithoutValue _ | variableWithoutType _
  | invalidTarget | incrementWithoutVariable => .syntactic
  | packageNotFirst | importNotGlobal | moduleInScope | functionInScope | structInScope
  | aliasInScope | returnOutsideFunction | outsideLoop _ | variadicOutside
  | emptyStruct | uninferable _ | duplicateParameter _ | duplicateVariable ..
  | duplicateFunction _ | duplicateStruct _ | duplicateMarker _ | missingReturn _
  | undefinedVariable _ | undefinedStruct _ | undefinedAlias .. | cyclicAlias _
  | functionNotFound _ | ambiguousCall .. | unknownResult _
  | notAnArray _ | indexNotInteger _ | immutable _
  | tooManyMembers .. | tooFewMembers .. | unknownMember .. | memberOrder ..
  | circularImport _ => .semantic
  | primitiveWithNamed .. | incompatiblePrimitives .. | noDominantType .. | notAPointer
  | notAStruct _ | noSuchMember .. | declarationMismatch .. | valueFromVoid _
  | returnMismatch .. | assignmentMismatch .. | memberMismatch .. => .typing
  | unreadable .. => .io
  | reported category _ => category

def message : Fault → String
  | unterminatedComment => "Unterminated block comment"
  | missingHexDigits => "Expected hexadecimal digits after '0x'"
  | unknownEscape c => s!"Unknown escape sequence '\\{c}'"
  | unterminatedEscape => "Unterminated escape sequence"
  | unterminatedString => "Unterminated string literal"
  | emptyChar => "Empty or unterminated char literal"
  | unterminatedChar => "Unterminated char literal"
  | unexpectedChar c => s!"Unexpected character '{c}'"
  | expectedFound wanted found => s!"Expected '{wanted.text}' but found '{found}'"
  | expectedAtEnd wanted => s!"Expected '{wanted.text}', but reached end of block"
  | missing what => s!"Expected {what}"
  | notAnExpression found => s!"Expected expression but found '{found}'"
  | subsetTooLong length offset available =>
    s!"Cannot create a subset of {length} tokens at offset {offset}; only {available} remain"
  | unmatched opening closing =>
    s!"Unmatched '{opening.text}'; expected a closing '{closing.text}'"
  | unexpectedToken found => s!"Unexpected token '{found}'"
  | integerOutOfRange lexeme => s!"Integer literal '{lexeme}' is out of range"
  | malformedFloat lexeme => s!"Invalid float literal '{lexeme}'"
  | unknownPrimitive lexeme => s!"Unknown primitive type '{lexeme}'"
  | malformedLength => "Invalid array length"
  | nestedTooDeep => s!"Maximum nesting depth of {maxDepth} exceeded"
  | tooManySegments => s!"Identifier chain exceeds the maximum of {maxSegments} segments"
  | tooManyParameters => s!"Functions cannot have more than {maxParameters} parameters"
  | tooManyArguments => s!"Function calls cannot have more than {maxParameters} arguments"
  | visibilityWithoutDeclaration => "Visibility modifiers are only allowed before declarations"
  | packageNotFirst => "Package declarations are only allowed as the first statement of a unit"
  | importNotGlobal => "Import statements are only allowed in global scope"
  | moduleInScope => "Module declarations are only allowed in global or module scope"
  | functionInScope => "Function declarations are only allowed in global or module scope"
  | structInScope => "Struct declarations are only allowed in global or module scope"
  | aliasInScope => "Reference structs can only be defined in the global or module scope"
  | returnOutsideFunction => "Return statements are not allowed outside of functions"
  | outsideLoop word => s!"'{word}' statements are only allowed inside loops"
  | variadicOutside => "Variadic argument reference used outside of a variadic function"
  | variadicNotLast => "Variadic parameter must be the last parameter"
  | emptyImport => "Import list cannot be empty"
  | emptyStruct => "A struct must have at least 1 member"
  | enumValue member => s!"Enum member '{member}' must be initialized with a literal"
  | constantWithoutValue name => s!"Constant '{name}' must be initialized"
  | variableWithoutType name => s!"Variable '{name}' needs a type annotation or an initializer"
  | uninferable name => s!"Unable to infer type of variable '{name}'"
  | duplicateParameter name => s!"Duplicate parameter name \"{name}\" in function definition"
  | duplicateVariable name isGlobal =>
    let place := if isGlobal then "global scope" else "this scope"
    s!"Field '{name}' is already defined in {place}"
  | duplicateFunction internal => s!"Function '{internal}' is already defined"
  | duplicateStruct name => s!"Struct '{name}' is already defined in this scope"
  | duplicateMarker name => s!"Symbol '{name}' is already defined in this scope"
  | missingReturn function => s!"Function '{function}' is missing a return statement."
  | undefinedVariable name => s!"Undefined variable '{name}'"
  | undefinedStruct name => s!"Undefined struct '{name}'"
  | undefinedAlias name target =>
    s!"Unable to determine type of struct '{name}': " ++
      s!"referenced struct type '{target}' is undefined"
  | cyclicAlias name => s!"Cyclic struct reference detected while resolving '{name}'"
  | functionNotFound signature => s!"Function '{signature}' was not found in this scope"
  | ambiguousCall signature count =>
    s!"Call to '{signature}' is ambiguous between {count} overloads"
  | unknownResult function => s!"Unable to resolve return type for function '{function}'"
  | primitiveWithNamed lhs rhs =>
    s!"Cannot mix primitive type with named type ('{lhs.text}' and '{rhs.text}')"
  | incompatiblePrimitives lhs rhs =>
    s!"Cannot compute dominant type for incompatible primitive types '{lhs.text}' and '{rhs.text}'"
  | noDominantType lhs rhs => s!"Cannot compute dominant type of '{lhs.text}' and '{rhs.text}'"
  | notAPointer => "Cannot dereference non-pointer type"
  | notAStruct type => s!"Cannot access member of non-struct type '{type.text}'"
  | noSuchMember owner struct member =>
    s!"Variable '{owner}' of type '{struct}' has no member named '{member}'"
  | notAnArray type => s!"Array member accessor used on non-array type '{type.text}'"
  | indexNotInteger type => s!"Array index accessor must be of type int, got '{type.text}'"
  | declarationMismatch expected actual =>
    s!"Type mismatch in variable declaration; expected type '{expected.text}', got '{actual.text}'"
  | valueFromVoid function =>
    s!"Function '{function}' has return type 'void' and cannot return a value."
  | returnMismatch function expected actual =>
    let received := (actual.map (·.text)).getD "void"
    s!"Function '{function}' expected a return type of '{expected.text}', " ++
      s!"but received '{received}'."
  | invalidTarget => "Invalid assignment target"
  | incrementWithoutVariable => "Increment and decrement require a variable"
  | immutable name => s!"Variable '{name}' is immutable and cannot be reassigned"
  | assignmentMismatch name expected actual =>
    s!"Type mismatch when reassigning variable '{name}', expected type '{expected.text}', " ++
      s!"got type '{actual.text}'"
  | tooManyMembers struct expected actual =>
    s!"Too many members found in struct '{struct}': expected {expected}, got {actual}"
  | tooFewMembers struct expected actual =>
    s!"Too few members found in struct '{struct}': expected {expected}, got {actual}"
  | unknownMember struct member => s!"Struct '{struct}' has no member named '{member}'"
  | memberOrder index expected actual =>
    s!"Struct member order mismatch at index {index}: expected '{expected}', got '{actual}'"
  | memberMismatch member struct expected actual =>
    s!"Type mismatch for member '{member}' in struct initializer '{struct}': " ++
      s!"expected '{expected.text}', got '{actual.text}'"
  | circularImport chain => "Circular import detected: " ++ join " -> " chain
  | unreadable path obstacle => s!"Failed to read {path}: {obstacle.text}"
  | reported _ message => message

end Fault
end OnePass
