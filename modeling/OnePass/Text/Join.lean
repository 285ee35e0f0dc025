/-!
Texts put together with a separator between them.
-/

namespace OnePass

def join (separator : String) : List String → String
  | [] => ""
  | [s] => s
  | s :: rest => s ++ separator ++ join separator rest

end OnePass
