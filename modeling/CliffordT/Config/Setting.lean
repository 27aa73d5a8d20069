import CliffordT.Decimal.Format
import CliffordT.Decimal.Read
import CliffordT.Text.Duration
import CliffordT.Text.Letters
import CliffordT.Text.Raw

/-!
# Values as they are set

A parameter can be set by a flag, a variable of the environment or a file, each of which has its own kinds of values.
They are converted to the kind that the parameter needs as long as something can be made of them: truth values count
as 0 and 1, numbers are cut to integers, texts are read as numbers, and numbers become texts. What cannot be converted
is an error.
-/

namespace CliffordT

/-- A value as it was set. No parameter takes a time, a list or a mapping. -/
inductive Setting where
  | null
  | bool (b : Bool)
  | int (n : Int)
  | float (x : Float)
  | text (t : RawText)
  /-- a date or a time of a kind, as messages show it -/
  | time (kind written : String)
  | list (items : List Setting)
  /-- the members by their names; a later one overrides an earlier one with the same name -/
  | mapping (members : List (RawText × Setting))

/-- The members of a mapping by their names. -/
abbrev Members := List (RawText × Setting)

/-- What a text was read as. -/
inductive Reading where
  | int
  | float
  | truth

/-- The wording for a text that could not be read. -/
def Reading.message (reading : Reading) (t : RawText) (e : Decimal.NumberError) : String :=
  let name := match reading with | .int => "ParseInt" | .float => "ParseFloat" | .truth => "ParseBool"
  "strconv." ++ name ++ ": parsing " ++ t.quoted ++ ": " ++ e.message

/-- The members with the one of a name made from what it was, or put behind the others. -/
def Members.update (members : Members) (name : RawText) (f : Option Setting → Setting) : Members :=
  if (members.lookup name).isSome then
    members.map fun (n, value) => if n = name then (n, f (some value)) else (n, value)
  else members ++ [(name, f none)]

namespace Setting

/-! ### Texts of values -/

/-- The name of the kind of a value. -/
def kind : Setting → String
  | .null => "<nil>"
  | .bool _ => "bool"
  | .int _ => "int"
  | .float _ => "float64"
  | .text _ => "string"
  | .time kind _ => kind
  | .list _ => "[]interface \x7b\x7d"
  | .mapping _ => "map[string]interface \x7b\x7d"

/-- Texts in brackets, one behind the other. -/
def bracketed (texts : List RawText) : RawText := "[" ++ RawText.intercalate " " texts ++ "]"

/-- The texts of members by their names in order, a later one in place of an earlier one. -/
def ordered (shown : List (RawText × RawText)) : List RawText :=
  let last := shown.foldl (fun kept m => kept.filter (fun k => k.1 ≠ m.1) ++ [m]) []
  (last.mergeSort fun a b => a.1.bytes ≤ b.1.bytes).map fun (name, value) => name ++ ":" ++ value

mutual

/-- The text of a value in messages. -/
def shown : Setting → RawText
  | .null => "<nil>"
  | .bool b => if b then "true" else "false"
  | .int n => toString n
  | .float x => Decimal.Style.general.write x
  | .text t => t
  | .time _ written => written
  | .list items => bracketed (shownItems items)
  | .mapping members => "map" ++ bracketed (ordered (shownMembers members))

/-- The texts of items. -/
def shownItems : List Setting → List RawText
  | [] => []
  | item :: items => item.shown :: shownItems items

/-- The texts of members by their names. -/
def shownMembers : List (RawText × Setting) → List (RawText × RawText)
  | [] => []
  | (name, value) :: members => (name, value.shown) :: shownMembers members

end

/-! ### Names in lower case -/

/-- The members with their names in lower case, and so inside mappings of mappings. -/
def lowerMembers : List (RawText × Setting) → List (RawText × Setting)
  | [] => []
  | (name, .mapping inner) :: members =>
    (Text.lower name.text, .mapping (lowerMembers inner)) :: lowerMembers members
  | (name, value) :: members => (Text.lower name.text, value) :: lowerMembers members

mutual

/-- The value with names in lower case. A list inside a mapping stays as it is. -/
def lowered : Setting → Setting
  | .list items => .list (lowerItems items)
  | .mapping members => .mapping (lowerMembers members)
  | value => value

/-- The items with names in lower case. -/
def lowerItems : List Setting → List Setting
  | [] => []
  | item :: items => item.lowered :: lowerItems items

end

/-! ### Conversions -/

/-- A value that does not convert, with what is wrong with it. -/
abbrev Conversion (α : Type) := Except String α

/-- The wording for a value that is of no use for a parameter. -/
def unfit (key wanted : String) (value : Setting) : String :=
  "'" ++ key ++ "' expected type '" ++ wanted ++ "', got unconvertible type '" ++ value.kind ++ "', value: '" ++
    value.shown.text ++ "'"

/-- An integer brought into 64 bits by wrapping around. -/
def wrap (n : Int) : Int := n.bmod 0x10000000000000000

/-- The value as an integer; `wanted` names the kind of the parameter. -/
def toIntOf (wanted key : String) : Setting → Conversion Int
  | .bool b => .ok (if b then 1 else 0)
  | .int n => .ok (wrap n)
  | .float x => .ok (Numeric.truncate64 x)
  | .text t =>
    if t.isEmpty then .ok 0
    else
      match Decimal.readInt t.text with
      | .ok n => .ok n
      | .error e => .error ("cannot parse '" ++ key ++ "' as int: " ++ Reading.message .int t e)
  | value => .error (value.unfit key wanted)

/-- The value as an integer. -/
def toInt (key : String) (value : Setting) : Conversion Int := value.toIntOf "int" key

/-- The value as a double. -/
def toFloat (key : String) : Setting → Conversion Float
  | .bool b => .ok (if b then 1 else 0)
  | .int n => .ok (Float.ofInt n)
  | .float x => .ok x
  | .text t =>
    if t.isEmpty then .ok 0
    else
      match Decimal.readFloat t.text with
      | .ok x => .ok x
      | .error e => .error ("cannot parse '" ++ key ++ "' as float: " ++ Reading.message .float t e)
  | value => .error (value.unfit key "float64")

/-- The value as a truth value. -/
def toBool (key : String) : Setting → Conversion Bool
  | .bool b => .ok b
  | .int n => .ok (n ≠ 0)
  | .float x => .ok (x != 0)
  | .text t =>
    match Decimal.readBool t.text with
    | .ok b => .ok b
    | .error e =>
      if t.isEmpty then .ok false
      else .error ("cannot parse '" ++ key ++ "' as bool: " ++ Reading.message .truth t e)
  | value => .error (value.unfit key "bool")

/-- The value as a text. -/
def toText (key : String) : Setting → Conversion RawText
  | .bool b => .ok (if b then "1" else "0")
  | .int n => .ok (toString n)
  | .float x => .ok (Decimal.Style.plain.write x)
  | .text t => .ok t
  | value => .error (value.unfit key "string")

/-- The value as a duration: a text with units, or a number of nanoseconds. -/
def toDuration (key : String) : Setting → Conversion Duration
  | .text t =>
    match Duration.read t.text with
    | .ok d => .ok d
    | .error e => .error ("error decoding '" ++ key ++ "': " ++ e.message)
  | value => (value.toIntOf "time.Duration" key).map fun n => ⟨n⟩

end Setting

end CliffordT
