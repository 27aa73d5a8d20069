import CliffordT.Text.Quoted

/-!
# What can go wrong with JSON

A text is refused at its first byte that cannot follow, or because it ends too early. A text that ends is looked at as
if a blank came next, so where no blank can follow, the blank is the byte that is refused. A value that was read can
still be of another kind than the one that is asked for.
-/

namespace CliffordT.Json

/-- A position at which only certain bytes can follow. -/
inductive Position where
  | value
  | name
  | afterName
  | afterMember
  | afterItem
  | afterText
  | string
  | escape
  | hexEscape
  | number
  | fraction
  | exponent
  /-- inside a fixed word -/
  | word (whole : String) (next : Char)
  /-- behind as many opening brackets as there may be -/
  | nesting
deriving DecidableEq, Repr

namespace Position

/-- The wording of a position. -/
def text : Position → String
  | value => "looking for beginning of value"
  | name => "looking for beginning of object key string"
  | afterName => "after object key"
  | afterMember => "after object key:value pair"
  | afterItem => "after array element"
  | afterText => "after top-level value"
  | string => "in string literal"
  | escape => "in string escape code"
  | hexEscape => "in \\u hexadecimal character escape"
  | number => "in numeric literal"
  | fraction => "after decimal point in numeric literal"
  | exponent => "in exponent of numeric literal"
  | word whole next => "in literal " ++ whole ++ " (expecting '" ++ String.singleton next ++ "')"
  | nesting => "exceeded max depth"

/-- Whether a blank can follow. -/
def takesBlank : Position → Bool
  | value => true
  | name => true
  | afterName => true
  | afterMember => true
  | afterItem => true
  | afterText => true
  | string => true
  | _ => false

end Position

/-- Why a text gives no value. -/
inductive Error where
  /-- it ends too early -/
  | ended
  | unexpected (byte : UInt8) (position : Position)
  /-- a value of another kind than the one that is asked for -/
  | misfit (found wanted : String)
deriving DecidableEq, Repr

namespace Error

/-- The wording of an error. -/
def message : Error → String
  | ended => "unexpected end of JSON input"
  | unexpected byte position => "invalid character " ++ Text.quotedByte byte ++ " " ++ position.text
  | misfit found wanted => "json: cannot unmarshal " ++ found ++ " into Go " ++ wanted

/-- The error at a position where what follows cannot follow. -/
def unfit (position : Position) : List Char → Error
  | [] => if position.takesBlank then ended else unexpected 32 position
  | c :: _ => unexpected ((String.singleton c).toUTF8.toList.headD 0) position

end Error

end CliffordT.Json
