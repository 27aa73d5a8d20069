import CliffordT.Json.Basic
import CliffordT.Text.Quoted

/-!
# Writing JSON

Every item and member stands on a line of its own, two blanks further in than what holds it. An empty array or object
stands on one line. Control characters and the characters `<`, `>`, `&`, U+2028 and U+2029 are escaped.
-/

namespace CliffordT.Json

/-- A character of a string. -/
def writeChar (c : Char) : List Char :=
  match c with
  | '"' => ['\\', '"']
  | '\\' => ['\\', '\\']
  | '\n' => ['\\', 'n']
  | '\r' => ['\\', 'r']
  | '\t' => ['\\', 't']
  | c =>
    let n := c.toNat
    if n = 8 then ['\\', 'b']
    else if n = 12 then ['\\', 'f']
    else if n < 32 ∨ c = '<' ∨ c = '>' ∨ c = '&' ∨ n = 0x2028 ∨ n = 0x2029 then '\\' :: 'u' :: Text.hex 4 n
    else [c]

/-- A string in quotes. -/
def writeString (s : String) : List Char := '"' :: (s.toList.flatMap writeChar ++ ['"'])

/-- A new line that starts `depth` steps in. -/
def newLine (depth : Nat) : List Char := '\n' :: List.replicate (2 * depth) ' '

mutual

/-- A value whose lines start `depth` steps in. -/
def write (depth : Nat) : Json → List Char
  | .null => "null".toList
  | .bool b => (if b then "true" else "false").toList
  | .number literal => literal.toList
  | .string s => writeString s
  | .array [] => ['[', ']']
  | .array (item :: items) =>
    '[' :: (newLine (depth + 1) ++ write (depth + 1) item ++ writeItems (depth + 1) items ++ newLine depth ++ [']'])
  | .object [] => ['\x7b', '\x7d']
  | .object ((name, value) :: members) =>
    '\x7b' :: (newLine (depth + 1) ++ writeString name ++ [':', ' '] ++ write (depth + 1) value ++
      writeMembers (depth + 1) members ++ newLine depth ++ ['\x7d'])

/-- Further items, each behind a comma. -/
def writeItems (depth : Nat) : List Json → List Char
  | [] => []
  | item :: items => ',' :: (newLine depth ++ write depth item ++ writeItems depth items)

/-- Further members, each behind a comma. -/
def writeMembers (depth : Nat) : List (String × Json) → List Char
  | [] => []
  | (name, value) :: members =>
    ',' :: (newLine depth ++ writeString name ++ [':', ' '] ++ write depth value ++ writeMembers depth members)

end

/-- The text of a value, ended by a line break. -/
def render (value : Json) : String := String.ofList (write 0 value ++ ['\n'])

end CliffordT.Json
