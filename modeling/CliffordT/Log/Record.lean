import CliffordT.Decimal.Format
import CliffordT.Log.Level

/-!
# Log records

A record is a message with a level and named values. It is written on one line as pairs of a name and a value: the
time, the level, the message unless it is empty, and the values by the order of their names. A value of plain
characters stands as it is, any other in quotes.
-/

namespace CliffordT.Log

/-- A value in a record. -/
inductive Value where
  | int (n : Int)
  | float (x : Float)
  | bool (b : Bool)
  | text (t : RawText)
  | ints (ns : List Int)
  | floats (xs : List Float)

/-- Items in brackets. -/
def bracketed (items : List String) : String := "[" ++ " ".intercalate items ++ "]"

/-- The text of a value. -/
def Value.render : Value → RawText
  | .int n => toString n
  | .float x => Decimal.Style.general.write x
  | .bool b => if b then "true" else "false"
  | .text t => t
  | .ints ns => bracketed (ns.map toString)
  | .floats xs => bracketed (xs.map Decimal.Style.general.write)

/-- A record. -/
structure Record where
  level : Level
  message : String
  fields : List (String × Value)

namespace Record

/-- The record with one more value. -/
def tagged (r : Record) (name : String) (value : Value) : Record := { r with fields := r.fields ++ [(name, value)] }

/-- Whether a character stands in a value without quotes. -/
def isPlain (c : Char) : Bool :=
  c.isAlphanum || c = '-' || c = '.' || c = '_' || c = '/' || c = '@' || c = '^' || c = '+'

/-- A name and a value. -/
def pair (name : String) (value : RawText) : String :=
  name ++ "=" ++ (if value.text.toList.all isPlain then value.text else value.quoted)

/-- The line of a record at a time. -/
def line (time : String) (r : Record) : String :=
  let sorted := r.fields.mergeSort fun a b => a.1 ≤ b.1
  let pairs :=
    [pair "time" time, pair "level" r.level.name] ++ (if r.message = "" then [] else [pair "msg" r.message]) ++
      sorted.map fun (name, value) => pair name value.render
  " ".intercalate pairs ++ "\n"

end Record

end CliffordT.Log
