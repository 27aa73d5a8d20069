import CliffordT.Decimal.Read
import CliffordT.Text.Base64
import CliffordT.Text.Raw
import CliffordT.Yaml.Timestamp

/-!
# What YAML scalars stand for

A plain scalar may stand for something other than a text: a null, a truth value, a number or a time. A tag asks for one
of these kinds, and a scalar that is not of the kind has no meaning.
-/

namespace CliffordT.Yaml

/-- What a scalar stands for. -/
inductive Meaning where
  | null
  | bool (b : Bool)
  | int (n : Int)
  | float (x : Float)
  | time (m : Moment)
  | text (t : RawText)

namespace Meaning

/-- Whether two meanings are one and the same, as keys of a mapping. Kinds differ from each other, and a number that is
none differs from itself. -/
def same : Meaning → Meaning → Bool
  | .null, .null => true
  | .bool a, .bool b => a = b
  | .int a, .int b => a = b
  | .float a, .float b => a == b
  | .time a, .time b => a = b
  | .text a, .text b => a = b
  | _, _ => false

end Meaning

/-- Words that stand for something else than themselves. -/
def reserved? (s : String) : Option Meaning :=
  if ["", "~", "null", "Null", "NULL"].contains s then some .null
  else if ["true", "True", "TRUE"].contains s then some (.bool true)
  else if ["false", "False", "FALSE"].contains s then some (.bool false)
  else if [".nan", ".NaN", ".NAN"].contains s then some (.float Numeric.nan)
  else if [".inf", ".Inf", ".INF", "+.inf", "+.Inf", "+.INF"].contains s then some (.float Numeric.infinity)
  else if ["-.inf", "-.Inf", "-.INF"].contains s then some (.float (-Numeric.infinity))
  else none

/-- Whether a text is a decimal number: a sign, digits with at most one point, and an exponent. -/
def isDecimal (s : String) : Bool :=
  let (_, cs) := Decimal.splitSign s.toList
  let whole := cs.takeWhile Char.isDigit
  let rest := cs.drop whole.length
  let (fraction, rest) : List Char × List Char :=
    match rest with
    | '.' :: rest => (rest.takeWhile Char.isDigit, rest.dropWhile Char.isDigit)
    | _ => ([], rest)
  let exponentFits : Bool :=
    match rest with
    | [] => true
    | c :: rest =>
      let (_, ds) := Decimal.splitSign rest
      (c = 'e' || c = 'E') && !ds.isEmpty && ds.all Char.isDigit
  !(whole.isEmpty && fraction.isEmpty) && exponentFits

/-- An integer up to the largest of 64 bits without a sign. -/
def integer? (s : String) : Option Int :=
  match Decimal.readInt s with
  | .ok n => some n
  | .error _ => (Decimal.readUnsigned s.toList).toOption.map Int.ofNat

/-- A decimal number in the range of doubles. -/
def float? (s : String) : Option Float := if isDecimal s then (Decimal.readFloat s).toOption else none

/-- An integer in base two or eight whose sign may stand behind the mark of the base. -/
def markedInteger? (s : String) : Option Int :=
  let read (base : Nat) (cs : List Char) : Option Int := (Decimal.readIntBase base (String.ofList cs)).toOption
  match s.toList with
  | '0' :: 'b' :: ds => read 2 ds
  | '0' :: 'o' :: ds => read 8 ds
  | '-' :: '0' :: 'b' :: ds => read 2 ('-' :: ds)
  | '-' :: '0' :: 'o' :: ds => read 8 ('-' :: ds)
  | _ => none

/-- What a scalar that starts like a number stands for. Underscores do not count. -/
def number? (s : String) : Option Meaning :=
  let plain := String.ofList (s.toList.filter (· ≠ '_'))
  (integer? plain).map .int <|> (float? plain).map .float <|> (markedInteger? plain).map .int

/-- What a plain scalar stands for. -/
def resolve (s : String) : Meaning :=
  match reserved? s with
  | some meaning => meaning
  | none =>
    match s.toList with
    | [] => .null
    | c :: _ =>
      if c = '.' then
        match Decimal.readFloat s with
        | .ok x => .float x
        | .error _ => .text s
      else
        match moment? s with
        | some m => .time m
        | none => if c = '+' ∨ c = '-' ∨ c.isDigit then (number? s).getD (.text s) else .text s

/-- The kind of scalar that a tag asks for. -/
inductive Tag where
  /-- no tag, so that a plain scalar decides for itself -/
  | untagged
  | text
  | null
  | bool
  | int
  | float
  | time
  | binary
  /-- the key that merges other mappings -/
  | merge
  /-- any other tag, which leaves a scalar a text -/
  | other
deriving DecidableEq, Repr

namespace Tag

/-- What the tags of the language start with. -/
def home : String := "tag:yaml.org,2002:"

/-- The kind of a tag by its text. -/
def ofText (s : String) : Tag :=
  let cs := s.toList
  let name :=
    if home.toList.isPrefixOf cs then String.ofList (cs.drop home.length)
    else if ['!', '!'].isPrefixOf cs then String.ofList (cs.drop 2)
    else ""
  if s = "" ∨ s = "!" then .untagged
  else
    match name with
    | "str" => .text
    | "null" => .null
    | "bool" => .bool
    | "int" => .int
    | "float" => .float
    | "timestamp" => .time
    | "binary" => .binary
    | "merge" => .merge
    | _ => .other

/-- What a scalar with a tag stands for; nothing if it is not of the tag's kind. An integer with a sign counts as a
float. -/
def meaning? (tag : Tag) (s : String) : Option Meaning :=
  match tag, resolve s with
  | .untagged, meaning => some meaning
  | .text, _ => some (.text s)
  | .merge, _ => some (.text s)
  | .other, _ => some (.text s)
  | .binary, _ => (Text.base64? s).map fun bytes => .text ⟨bytes⟩
  | .null, .null => some .null
  | .bool, .bool b => some (.bool b)
  | .int, .int n => some (.int n)
  | .float, .float x => some (.float x)
  | .float, .int n => if n < 0x8000000000000000 then some (.float (Float.ofInt n)) else none
  | .time, .time m => some (.time m)
  | _, _ => none

end Tag

end CliffordT.Yaml
