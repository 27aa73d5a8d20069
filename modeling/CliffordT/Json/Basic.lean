/-!
# JSON values

A number keeps the text it was written with, so that a reader can tell integers from other numbers. An object keeps
its members in order, repeated names included.
-/

namespace CliffordT

/-- A JSON value. -/
inductive Json where
  | null
  | bool (b : Bool)
  | number (literal : String)
  | string (s : String)
  | array (items : List Json)
  | object (members : List (String × Json))

/-- The name of the kind of a value. -/
def Json.kind : Json → String
  | .null => "null"
  | .bool _ => "bool"
  | .number _ => "number"
  | .string _ => "string"
  | .array _ => "array"
  | .object _ => "object"

end CliffordT
