import OnePass.Diagnostic.Basic
import OnePass.Json
import OnePass.Listing.Names
import OnePass.Registry.Basic

/-!
What is declared globally, and what a diagnostic reports, as JSON. Alternatives are objects with one
member, which names the alternative.
-/

namespace OnePass

def Span.json (s : Span) : Json :=
  .object [("start", .number s.start), ("end", .number s.stop), ("file_id", .number s.file)]

mutual

def Ty.json : Ty → Json
  | .primitive kind width flags => .object [("Primitive", .object
      [("kind", .string kind.label), ("bits", .number width), ("flags", .number flags.bits)])]
  | .named name flags => .object [("Named", .object
      [("name", .string name), ("flags", .number flags.bits)])]
  | .array element length flags => .object [("Array", .object
      [("element", element.json), ("length", .number length), ("flags", .number flags.bits)])]
  | .function params result flags => .object [("Function", .object
      [("params", .array (Ty.jsonList params)), ("ret", result.json),
       ("flags", .number flags.bits)])]

def Ty.jsonList : List Ty → List Json
  | [] => []
  | t :: ts => t.json :: Ty.jsonList ts

end

def Symbol.json (s : Symbol) : Json :=
  .object [("name", .string s.name), ("internal_name", .string s.internal), ("span", s.span.json)]

def FunctionTraits.json (t : FunctionTraits) : Json :=
  .object [("is_extern", .bool t.isExtern), ("is_async", .bool t.isAsync),
    ("is_variadic", .bool t.isVariadic), ("is_anonymous", .bool t.isAnonymous)]

def Layout.json : Layout → Json
  | .fields fs => .object [("Fields", .array
      (fs.map fun f => .array [.string f.name, f.type.json]))]
  | .alias target => .object [("Reference", target.json)]

/-- Markers are not listed. -/
def Definition.json? : Definition → Option Json
  | .variable v => some (.object [("Field", .object
      [("symbol", v.symbol.json), ("ty", v.type.json)])])
  | .function f => some (.object [("Function", .object
      [("symbol", f.symbol.json), ("params", .array (Ty.jsonList f.params)),
       ("ret", f.result.json), ("flags", f.traits.json)])])
  | .struct s => some (.object [("Struct", .object
      [("symbol", s.symbol.json), ("layout", s.layout.json)])])
  | .marker .. => none

/-- The global declarations, in the order in which they were entered. -/
def Registry.json (reg : Registry) : Json :=
  .array ((reg.definitions Registry.global).filterMap (·.json?))

def Report.json (r : Report) : Json :=
  .object [("kind", .option (.string ·.label) r.category), ("message", .string r.message),
    ("file", .option .string r.file), ("line", .option .number r.line),
    ("column", .option .number r.column), ("length", .option .number r.length),
    ("suggestion", .option .string r.hint)]

end OnePass
