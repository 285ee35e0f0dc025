import OnePass.Listing.Names
import OnePass.Listing.Number
import OnePass.Outline
import OnePass.Text.Quoted

/-!
Programs as outlines, with everything that their trees hold.
-/

namespace OnePass

namespace Outline

def string (s : String) : Outline := atom (quotedText s)

def strings (ss : List String) : Outline := list (ss.map string)

def scope (id : ScopeId) : Outline := tuple "ScopeId" [number id]

end Outline

def Span.outline (s : Span) : Outline :=
  .record "Span" [("start", .number s.start), ("end", .number s.stop), ("file_id", .number s.file)]

def Flags.outline (f : Flags) : Outline := .tuple "TypeFlags" [.number f.bits]

mutual

def Ty.outline : Ty → Outline
  | .primitive kind width flags => .record "Primitive"
      [("kind", .atom kind.label), ("bits", .number width), ("flags", flags.outline)]
  | .named name flags => .record "Named" [("name", .string name), ("flags", flags.outline)]
  | .array element length flags => .record "Array"
      [("element", element.outline), ("length", .number length), ("flags", flags.outline)]
  | .function params result flags => .record "Function"
      [("params", .list (Ty.outlines params)), ("ret", result.outline), ("flags", flags.outline)]

def Ty.outlines : List Ty → List Outline
  | [] => []
  | t :: ts => t.outline :: Ty.outlines ts

end

def FunctionTraits.outline (t : FunctionTraits) : Outline :=
  .record "FunctionFlags" [("is_extern", .bool t.isExtern), ("is_async", .bool t.isAsync),
    ("is_variadic", .bool t.isVariadic), ("is_anonymous", .bool t.isAnonymous)]

def Visibility.outline (v : Visibility) : Outline := .atom v.label

def Literal.outline : Literal → Outline
  | .integer value long => .record "Integer" [("value", .number value), ("long", .bool long)]
  | .float bits double => .record "Float"
      [("value", .atom (Numeral.doubleText bits)), ("double", .bool double)]
  | .string value => .tuple "String" [.string value]
  | .char value => .tuple "Char" [.atom (quotedLetter value)]
  | .bool value => .tuple "Bool" [.bool value]
  | .nil => .atom "Nil"

def Binding.outline : Binding → Outline
  | .variable internal scope => .record "Variable"
      [("internal_name", .string internal), ("scope", .scope scope)]
  | .function internal => .record "Function" [("internal_name", .string internal)]

def Target.outline : Target → Outline
  | .function internal => .record "Function" [("internal_name", .string internal)]
  | .variable internal scope => .record "Variable"
      [("internal_name", .string internal), ("scope", .scope scope)]
  | .deferred => .atom "Deferred"

def Identifier.outline (id : Identifier) : Outline :=
  .record "Identifier"
    [("name", .string id.name), ("binding", id.binding.outline), ("span", id.span.outline)]

def Member.outline (m : Member) : Outline :=
  .record "Member" [("name", .string m.name), ("span", m.span.outline)]

def Param.outline (p : Param) : Outline :=
  .record "Param" [("name", .string p.name), ("internal_name", .string p.internal),
    ("ty", p.type.outline), ("span", p.span.outline)]

def StructField.outline (f : StructField) : Outline :=
  .record "StructField" [("name", .string f.name), ("ty", f.type.outline), ("span", f.span.outline)]

def StructBody.outline : StructBody → Outline
  | .fields fs => .tuple "Fields" [.list (fs.map (·.outline))]
  | .alias internal => .tuple "Reference" [.string internal]

def StructDecl.outline (d : StructDecl) : Outline :=
  .record "StructDecl" [("name", .string d.name), ("internal_name", .string d.internal),
    ("body", d.body.outline), ("visibility", d.visibility.outline), ("span", d.span.outline)]

def BinaryOp.outline : BinaryOp → String × Outline
  | .arithmetic op => ("Binary", .atom op.label)
  | .comparison op => ("Comparison", .atom op.label)
  | .logical op => ("Logical", .atom op.label)

mutual

def Expr.outline : Expr → Outline
  | .literal value span => .record "Literal" [("value", value.outline), ("span", span.outline)]
  | .identifier id => .tuple "Identifier" [id.outline]
  | .variadic span => .record "VariadicReference" [("span", span.outline)]
  | .member base members span => .record "MemberAccess" [("base", base.outline),
      ("members", .list (members.map (·.outline))), ("span", span.outline)]
  | .index array index span => .record "Index"
      [("array", array.outline), ("index", index.outline), ("span", span.outline)]
  | .call call => .tuple "Call" [call.outline]
  | .binary op lhs rhs span => .record op.outline.1 [("op", op.outline.2), ("lhs", lhs.outline),
      ("rhs", rhs.outline), ("span", span.outline)]
  | .unary op operand span => .record "Unary"
      [("op", .atom op.label), ("operand", operand.outline), ("span", span.outline)]
  | .assign op target value span => .record "Assign" [("target", target.outline),
      ("op", .atom op.label), ("value", value.outline), ("span", span.outline)]
  | .construct name internal fields span => .record "StructInit" [("name", .string name),
      ("internal_name", .string internal), ("fields", .list (Entry.outlines "FieldInit" fields)),
      ("span", span.outline)]
  | .array elements span => .record "Array"
      [("elements", .list (Expr.outlines elements)), ("span", span.outline)]
  | .lambda routine => .tuple "Lambda" [routine.outline]

def Expr.outlines : List Expr → List Outline
  | [] => []
  | e :: es => e.outline :: Expr.outlines es

def Expr.outlineOption : Option Expr → Outline
  | none => .atom "None"
  | some e => .tuple "Some" [e.outline]

/-- An entry is named for what it is an entry of. -/
def Entry.outline (kind : String) : Entry → Outline
  | ⟨name, value, span⟩ => .record kind
      [("name", .string name), ("value", value.outline), ("span", span.outline)]

def Entry.outlines (kind : String) : List Entry → List Outline
  | [] => []
  | e :: es => e.outline kind :: Entry.outlines kind es

def Call.outline : Call → Outline
  | ⟨name, qualified, args, argTypes, target, scope, span⟩ => .record "Call"
      [("name", .string name), ("qualified", .string qualified),
       ("args", .list (Expr.outlines args)), ("arg_types", .list (Ty.outlines argTypes)),
       ("target", target.outline), ("scope", .scope scope), ("span", span.outline)]

def Routine.outline : Routine → Outline
  | ⟨name, internal, params, result, body, traits, visibility, span⟩ => .record "FunctionDecl"
      [("name", .string name), ("internal_name", .string internal),
       ("params", .list (params.map (·.outline))), ("ret", result.outline),
       ("body", Block.outlineOption body), ("flags", traits.outline),
       ("visibility", visibility.outline), ("span", span.outline)]

def Block.outline : Block → Outline
  | ⟨stmts, scope, span⟩ => .record "Block"
      [("stmts", .list (Stmt.outlines stmts)), ("scope", .scope scope), ("span", span.outline)]

def Block.outlineOption : Option Block → Outline
  | none => .atom "None"
  | some b => .tuple "Some" [b.outline]

def VarDecl.outline : VarDecl → Outline
  | ⟨name, internal, type, value, mutable, visibility, scope, span⟩ => .record "VarDecl"
      [("name", .string name), ("internal_name", .string internal), ("ty", type.outline),
       ("value", Expr.outlineOption value), ("mutable", .bool mutable),
       ("visibility", visibility.outline), ("scope", .scope scope), ("span", span.outline)]

def Stmt.outline : Stmt → Outline
  | .package name span => .record "Package" [("name", .string name), ("span", span.outline)]
  | .imports path items span => .record "Import"
      [("path", .strings path), ("items", .strings items), ("span", span.outline)]
  | .module path body span => .record "Module"
      [("path", .strings path), ("body", body.outline), ("span", span.outline)]
  | .function routine => .tuple "Function" [routine.outline]
  | .struct decl => .tuple "Struct" [decl.outline]
  | .enum name internal members scope span => .tuple "Enum" [.record "EnumDecl"
      [("name", .string name), ("internal_name", .string internal),
       ("members", .list (Entry.outlines "EnumMember" members)), ("scope", .scope scope),
       ("span", span.outline)]]
  | .variable decl => .tuple "Variable" [decl.outline]
  | .cond condition yes no span => .record "If" [("cond", condition.outline),
      ("then_block", yes.outline), ("else_block", Block.outlineOption no), ("span", span.outline)]
  | .while condition body span => .record "While"
      [("cond", condition.outline), ("body", body.outline), ("span", span.outline)]
  | .for init condition step body scope span => .record "For"
      [("init", Stmt.outlineOption init), ("cond", Expr.outlineOption condition),
       ("step", Expr.outlineOption step), ("body", body.outline), ("scope", .scope scope),
       ("span", span.outline)]
  | .return value span => .record "Return"
      [("value", Expr.outlineOption value), ("span", span.outline)]
  | .break span => .record "Break" [("span", span.outline)]
  | .continue span => .record "Continue" [("span", span.outline)]
  | .block b => .tuple "Block" [b.outline]
  | .expr e => .tuple "Expr" [e.outline]

def Stmt.outlineOption : Option Stmt → Outline
  | none => .atom "None"
  | some s => .tuple "Some" [s.outline]

def Stmt.outlines : List Stmt → List Outline
  | [] => []
  | s :: ss => s.outline :: Stmt.outlines ss

end

def Program.outline (p : Program) : Outline :=
  .record "Program"
    [("path", .string p.path), ("package", .option .string p.package), ("body", p.body.outline)]

end OnePass
