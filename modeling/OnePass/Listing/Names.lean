import OnePass.Diagnostic.Fault
import OnePass.Tree.Basic

/-!
The names that listings give to the cases of a type.
-/

namespace OnePass

def Fault.Category.label : Fault.Category → String
  | syntactic => "Syntax"
  | typing => "Type"
  | semantic => "Semantic"
  | runtime => "Runtime"
  | io => "Io"

def Primitive.label : Primitive → String
  | i8 => "Int8" | i16 => "Int16" | i32 => "Int32" | i64 => "Int64"
  | u8 => "UInt8" | u16 => "UInt16" | u32 => "UInt32" | u64 => "UInt64"
  | f32 => "Float32" | f64 => "Float64"
  | bool => "Bool" | char => "Char" | string => "String" | void => "Void"
  | nil => "Nil" | unknown => "Unknown"

def Visibility.label : Visibility → String
  | inherited => "Inherited"
  | publicly => "Public"
  | privately => "Private"

def ArithmeticOp.label : ArithmeticOp → String
  | add => "Add" | sub => "Sub" | mul => "Mul" | div => "Div" | mod => "Mod" | pow => "Pow"

def ComparisonOp.label : ComparisonOp → String
  | eq => "Eq" | ne => "Ne" | lt => "Lt" | le => "Le" | gt => "Gt" | ge => "Ge"

def LogicalOp.label : LogicalOp → String
  | and => "And" | or => "Or"

def UnaryOp.label : UnaryOp → String
  | not => "Not" | negate => "Negate" | complement => "BitNot"
  | preIncrement => "PreIncrement" | preDecrement => "PreDecrement"
  | postIncrement => "PostIncrement" | postDecrement => "PostDecrement"
  | dereference => "Dereference" | addressOf => "AddressOf"

def AssignOp.label : AssignOp → String
  | set => "Assign" | add => "Add" | sub => "Sub" | mul => "Mul" | div => "Div" | mod => "Mod"
  | bitAnd => "BitAnd" | bitOr => "BitOr" | bitXor => "BitXor"

end OnePass
