import CliffordT.Toml.Definition
import CliffordT.Toml.Number
import CliffordT.Toml.Text
import CliffordT.Toml.Time

/-!
# Reading TOML

One statement stands on a line, with a comment behind it. Arrays go over several lines and may end with a comma; inline
tables stay on one line and may not.
-/

namespace CliffordT.Toml

/-- A value given by a word, and what follows it. -/
def readWord (word : String) (value : Value) (cs : List Char) : Option (Value × List Char) :=
  if word.toList.isPrefixOf cs then some (value, cs.drop word.length) else none

mutual

/-- A value and what follows it. -/
def readValue : Nat → List Char → Option (Value × List Char)
  | 0, _ => none
  | fuel + 1, cs =>
    match cs with
    | [] => none
    | c :: rest =>
      if c = '"' ∨ c = '\'' then (readString cs).map fun (text, rest) => (.text (String.ofList text), rest)
      else if c = 't' then readWord "true" (.bool true) cs
      else if c = 'f' then readWord "false" (.bool false) cs
      else if c = '[' then (readItems fuel true rest).map fun (items, rest) => (.array items, rest)
      else if c = '\x7b' then (readMembers fuel true rest).map fun (members, rest) => (.inline members, rest)
      else if startsTime cs then readTime cs
      else readNumber cs

/-- The items of an array, the first one or those behind it, and what follows the array. -/
def readItems : Nat → Bool → List Char → Option (List Value × List Char)
  | 0, _, _ => none
  | fuel + 1, first, cs => do
    let cs ← skipLines? (cs.length + 1) cs
    if cs.head? = some ']' then return ([], cs.drop 1)
    let cs ←
      if first then if cs.head? = some ',' then none else some cs
      else if cs.head? = some ',' then skipLines? cs.length (cs.drop 1)
      else none
    if cs.head? = some ']' then return ([], cs.drop 1)
    let (item, cs) ← readValue fuel cs
    let (items, cs) ← readItems fuel false cs
    return (item :: items, cs)

/-- The members of an inline table, the first one or those behind it, and what follows the table. -/
def readMembers : Nat → Bool → List Char → Option (List (Name × Value) × List Char)
  | 0, _, _ => none
  | fuel + 1, first, cs => do
    let cs := skipBlank cs
    if cs.head? = some '\x7d' then return ([], cs.drop 1)
    let cs ← if first then some cs else if cs.head? = some ',' then some (cs.drop 1) else none
    let (name, cs) ← readName cs
    if cs.head? ≠ some '=' then none
    let (value, cs) ← readValue fuel (skipBlank (cs.drop 1))
    let (members, cs) ← readMembers fuel false cs
    return ((name, value) :: members, cs)

end

/-- A heading behind its opening brackets, and what follows it. -/
def readHeading (close : List Char) (cs : List Char) : Option (Name × List Char) := do
  let (name, rest) ← readName cs
  if close.isPrefixOf rest then some (name, rest.drop close.length) else none

/-- A statement and what follows it. -/
def readStatement (cs : List Char) : Option (Statement × List Char) :=
  match cs with
  | '[' :: '[' :: rest => (readHeading [']', ']'] rest).map fun (name, rest) => (.arrayTable name, rest)
  | '[' :: rest => (readHeading [']'] rest).map fun (name, rest) => (.table name, rest)
  | cs => do
    let (name, rest) ← readName cs
    if rest.head? ≠ some '=' then none
    let (value, rest) ← readValue (rest.length + 1) (skipBlank (rest.drop 1))
    return (.pair name value, rest)

/-- The statements of a document, each at the end of its line. -/
def readStatements : Nat → List Char → Option (List Statement)
  | 0, _ => some []
  | fuel + 1, cs => do
    let cs ← skipLines? (cs.length + 1) cs
    if cs.isEmpty then return []
    let (statement, cs) ← readStatement cs
    let cs ← skipComment? (skipBlank cs)
    if cs.isEmpty then return [statement]
    return statement :: (← readStatements fuel (← afterBreak? cs))

/-- Read a document; nothing if it is none. -/
def read (s : String) : Option (List Statement) := do
  let statements ← readStatements (s.length + 1) s.toList
  if isSound statements then some statements else none

end CliffordT.Toml
