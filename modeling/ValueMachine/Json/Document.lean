/-!
# JSON documents

The tree that a JSON text stands for. An object is a list of members in the order of the text, and a
name may occur more than once.
-/

namespace ValueMachine.Json

inductive Document where
  | null
  | bool (b : Bool)
  | number (x : Float)
  | text (content : String)
  | array (items : List Document)
  | object (members : List (String × Document))

end ValueMachine.Json
