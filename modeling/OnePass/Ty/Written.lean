import OnePass.Text.Join
import OnePass.Ty.Basic

/-!
The text of a type, in diagnostics and in internal names. Mutability and globality are not written,
nor are array lengths. A function type in front of `[]`, behind `*` or `&`, or before `?` stands in
parentheses.
-/

namespace OnePass

def Flags.opening (f : Flags) : String :=
  (if f.variadic then "..." else "") ++ (if f.reference then "&" else "")
    ++ (if f.pointer then "*" else "")

def Flags.closing (f : Flags) : String := if f.optional then "?" else ""

namespace Ty

def isFunction : Ty → Bool
  | function .. => true
  | _ => false

mutual

def text (t : Ty) : String :=
  t.flags.opening ++
    (match t with
      | primitive k _ _ => k.name
      | named n _ => n
      | array e _ _ =>
        if e.isFunction && e.flags == .plain then "(" ++ text e ++ ")[]" else text e ++ "[]"
      | function ps r f =>
        let body := "(" ++ join ", " (texts ps) ++ ") -> " ++ text r
        if f.pointer || f.reference || f.optional then "(" ++ body ++ ")" else body)
    ++ t.flags.closing

def texts : List Ty → List String
  | [] => []
  | t :: ts => text t :: texts ts

end

end Ty
end OnePass
