import CliffordT.Json.Basic
import CliffordT.Json.Error

/-!
# Reading JSON

The text has to be one value with nothing but blanks around it. Values nest ten thousand deep at most. Half of a
surrogate pair in a string stands for the replacement character.
-/

namespace CliffordT.Json

/-- Without the blanks at the front. -/
def skipBlank (cs : List Char) : List Char :=
  cs.dropWhile fun c => c = ' ' || c = '\t' || c = '\n' || c = '\r'

/-- The value of a hexadecimal digit. -/
def hexDigit? (c : Char) : Option Nat :=
  if '0' ≤ c ∧ c ≤ '9' then some (c.toNat - 48)
  else if 'a' ≤ c ∧ c ≤ 'f' then some (c.toNat - 87)
  else if 'A' ≤ c ∧ c ≤ 'F' then some (c.toNat - 55)
  else none

/-- The value of hexadecimal digits. -/
def hexUnit? (cs : List Char) : Option Nat :=
  cs.foldlM (fun n c => (hexDigit? c).map (n * 16 + ·)) 0

/-- The error for hexadecimal digits that do not go on. -/
def hexError (cs : List Char) : Error := .unfit .hexEscape (cs.dropWhile fun c => (hexDigit? c).isSome)

/-- The character that a letter stands for behind a backslash. -/
def escape? (c : Char) : Option Char :=
  match c with
  | '"' => some '"'
  | '\\' => some '\\'
  | '/' => some '/'
  | 'b' => some (Char.ofNat 8)
  | 'f' => some (Char.ofNat 12)
  | 'n' => some '\n'
  | 'r' => some '\r'
  | 't' => some '\t'
  | _ => none

/-- The code units of a string up to its closing quote, and the rest behind it. -/
def readUnits : List Char → Except Error (List Nat × List Char)
  | [] => .error .ended
  | '\\' :: 'u' :: a :: b :: c :: d :: rest =>
    match hexUnit? [a, b, c, d] with
    | none => .error (hexError [a, b, c, d])
    | some unit => do
      let (units, rest) ← readUnits rest
      return (unit :: units, rest)
  | '\\' :: e :: rest =>
    if e = 'u' then .error (hexError rest)
    else
      match escape? e with
      | none => .error (.unfit .escape (e :: rest))
      | some c => do
        let (units, rest) ← readUnits rest
        return (c.toNat :: units, rest)
  | c :: rest =>
    if c = '"' then .ok ([], rest)
    else if c = '\\' then .error (.unfit .escape rest)
    else if c.toNat < 32 then .error (.unfit .string (c :: rest))
    else do
      let (units, rest) ← readUnits rest
      return (c.toNat :: units, rest)

/-- Whether a unit is the first half of a pair. -/
def isHigh (n : Nat) : Bool := 0xd800 ≤ n && n < 0xdc00

/-- Whether a unit is the second half of a pair. -/
def isLow (n : Nat) : Bool := 0xdc00 ≤ n && n < 0xe000

/-- The characters of code units: pairs joined, lone halves replaced. -/
def joinUnits : List Nat → List Char
  | [] => []
  | [n] => [if isHigh n || isLow n then Char.ofNat 0xfffd else Char.ofNat n]
  | n :: m :: rest =>
    if isHigh n && isLow m then Char.ofNat (0x10000 + (n - 0xd800) * 1024 + (m - 0xdc00)) :: joinUnits rest
    else (if isHigh n || isLow n then Char.ofNat 0xfffd else Char.ofNat n) :: joinUnits (m :: rest)

/-- A string behind its opening quote. -/
def readString (cs : List Char) : Except Error (String × List Char) := do
  let (units, rest) ← readUnits cs
  return (String.ofList (joinUnits units), rest)

/-- The digits at the front. -/
def digits (cs : List Char) : List Char := cs.takeWhile Char.isDigit

/-- The digits of a whole part: a zero alone, or no zero in front. -/
def wholePart (cs : List Char) : Except Error (List Char) :=
  match digits cs with
  | [] => .error (.unfit .number cs)
  | '0' :: _ => .ok ['0']
  | ds => .ok ds

/-- A fraction with its point, if one follows; its digits may not be missing. -/
def fraction (cs : List Char) : Except Error (List Char) :=
  match cs with
  | '.' :: rest => if (digits rest).isEmpty then .error (.unfit .fraction rest) else .ok ('.' :: digits rest)
  | _ => .ok []

/-- An exponent with its letter, if one follows; its digits may not be missing. -/
def exponent (cs : List Char) : Except Error (List Char) :=
  match cs with
  | c :: rest =>
    if c = 'e' ∨ c = 'E' then
      let sign := (rest.take 1).filter fun c => c = '+' || c = '-'
      let ds := digits (rest.drop sign.length)
      if ds.isEmpty then .error (.unfit .exponent (rest.drop sign.length)) else .ok (c :: (sign ++ ds))
    else .ok []
  | [] => .ok []

/-- A number and the rest behind it. -/
def readNumber (cs : List Char) : Except Error (Json × List Char) := do
  let sign := if cs.head? = some '-' then ['-'] else []
  let whole ← wholePart (cs.drop sign.length)
  let done := sign ++ whole
  let done := done ++ (← fraction (cs.drop done.length))
  let done := done ++ (← exponent (cs.drop done.length))
  return (.number (String.ofList done), cs.drop done.length)

/-- The letters of a fixed word that are still missing. -/
def readLetters (word : String) (value : Json) : List Char → List Char → Except Error (Json × List Char)
  | [], cs => .ok (value, cs)
  | letter :: letters, cs =>
    if cs.head? = some letter then readLetters word value letters (cs.drop 1)
    else .error (.unfit (.word word letter) cs)

/-- A fixed word that stands for a value. -/
def readWord (word : String) (value : Json) (cs : List Char) : Except Error (Json × List Char) :=
  readLetters word value word.toList cs

mutual

/-- A value at the front of a text, with `depth` levels of nesting left. Every call of these functions takes one unit
of fuel; a call for each character is enough. -/
def readValue : Nat → Nat → List Char → Except Error (Json × List Char)
  | 0, _, _ => .error .ended
  | fuel + 1, depth, cs =>
    match skipBlank cs with
    | '"' :: rest => (readString rest).map fun (s, rest) => (.string s, rest)
    | '[' :: rest =>
      if depth = 0 then .error (.unfit .nesting ('[' :: rest))
      else
        match skipBlank rest with
        | ']' :: rest => .ok (.array [], rest)
        | rest => (readItems fuel (depth - 1) rest).map fun (items, rest) => (.array items, rest)
    | '\x7b' :: rest =>
      if depth = 0 then .error (.unfit .nesting ('\x7b' :: rest))
      else
        match skipBlank rest with
        | '\x7d' :: rest => .ok (.object [], rest)
        | rest => (readMembers fuel (depth - 1) rest).map fun (members, rest) => (.object members, rest)
    | c :: rest =>
      if c = '-' ∨ c.isDigit then readNumber (c :: rest)
      else if c = 't' then readWord "true" (.bool true) (c :: rest)
      else if c = 'f' then readWord "false" (.bool false) (c :: rest)
      else if c = 'n' then readWord "null" .null (c :: rest)
      else .error (.unfit .value (c :: rest))
    | [] => .error (.unfit .value [])

/-- The items of an array up to its closing bracket. -/
def readItems : Nat → Nat → List Char → Except Error (List Json × List Char)
  | 0, _, _ => .error .ended
  | fuel + 1, depth, cs => do
    let (item, rest) ← readValue fuel depth cs
    match skipBlank rest with
    | ',' :: rest => (readItems fuel depth rest).map fun (items, rest) => (item :: items, rest)
    | ']' :: rest => .ok ([item], rest)
    | rest => .error (.unfit .afterItem rest)

/-- The members of an object up to its closing brace. -/
def readMembers : Nat → Nat → List Char → Except Error (List (String × Json) × List Char)
  | 0, _, _ => .error .ended
  | fuel + 1, depth, cs =>
    match skipBlank cs with
    | '"' :: rest => do
      let (name, rest) ← readString rest
      match skipBlank rest with
      | ':' :: rest => do
        let (value, rest) ← readValue fuel depth rest
        match skipBlank rest with
        | ',' :: rest =>
          (readMembers fuel depth rest).map fun (members, rest) => ((name, value) :: members, rest)
        | '\x7d' :: rest => .ok ([(name, value)], rest)
        | rest => .error (.unfit .afterMember rest)
      | rest => .error (.unfit .afterName rest)
    | rest => .error (.unfit .name rest)

end

/-- The largest nesting of values. -/
def maxDepth : Nat := 10000

/-- Read a text that is one value. -/
def read (s : String) : Except Error Json := do
  let cs := s.toList
  let (value, rest) ← readValue (2 * cs.length + 2) maxDepth cs
  match skipBlank rest with
  | [] => return value
  | rest => .error (.unfit .afterText rest)

end CliffordT.Json
