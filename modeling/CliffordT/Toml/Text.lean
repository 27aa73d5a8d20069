import CliffordT.Decimal.Read
import CliffordT.Toml.Basic

/-!
# Blanks, comments, strings and names in TOML

A blank is a space or a tab; a line ends with a line feed, in front of which a carriage return may stand. Strings in
double quotes have escapes, strings in single quotes have none, and strings in three quotes go over several lines.
-/

namespace CliffordT.Toml

/-! ### Blanks and comments -/

/-- Whether a character is a space or a tab. -/
def isBlank (c : Char) : Bool := c = ' ' || c = '\t'

/-- Without blanks at the front. -/
def skipBlank (cs : List Char) : List Char := cs.dropWhile isBlank

/-- Whether a character may not stand in a comment or a string as it is. -/
def isControl (c : Char) : Bool := (c.toNat < 32 && c ≠ '\t') || c.toNat = 127

/-- What follows a line break. -/
def afterBreak? : List Char → Option (List Char)
  | '\n' :: cs => some cs
  | '\r' :: '\n' :: cs => some cs
  | _ => none

/-- What follows a comment: the end of its line. -/
def afterComment? : List Char → Option (List Char)
  | [] => some []
  | c :: cs =>
    if c = '\n' then some (c :: cs)
    else if c = '\r' then if cs.head? = some '\n' then some cs else none
    else if isControl c then none
    else afterComment? cs

/-- Without a comment at the front; nothing if the comment is malformed. -/
def skipComment? (cs : List Char) : Option (List Char) :=
  if cs.head? = some '#' then afterComment? cs else some cs

/-- Without blanks, line breaks and comments at the front; nothing if one of them is malformed. -/
def skipLines? : Nat → List Char → Option (List Char)
  | 0, cs => some cs
  | fuel + 1, cs => do
    let rest ← skipComment? (skipBlank cs)
    if rest.head? = some '\n' ∨ rest.head? = some '\r' then skipLines? fuel (← afterBreak? rest) else some rest

/-! ### Strings -/

/-- The character that a letter stands for behind a backslash. -/
def escape? (c : Char) : Option Char :=
  match c with
  | 'b' => some (Char.ofNat 8)
  | 't' => some '\t'
  | 'n' => some '\n'
  | 'f' => some (Char.ofNat 12)
  | 'r' => some '\r'
  | 'e' => some (Char.ofNat 27)
  | '"' => some '"'
  | '\\' => some '\\'
  | _ => none

/-- The character of an escape and what follows it, behind the backslash. A number names any character but one half of
a surrogate pair. -/
def readEscape : List Char → Option (Char × List Char)
  | [] => none
  | e :: cs =>
    let width := if e = 'u' then 4 else if e = 'U' then 8 else 0
    if width = 0 then (escape? e).map fun c => (c, cs)
    else if cs.length < width then none
    else
      match Decimal.digitsValue 16 (cs.take width) with
      | .error _ => none
      | .ok n => if Nat.isValidChar n then some (Char.ofNat n, cs.drop width) else none

/-- A string in double quotes behind its opening quote, and what follows it. -/
def readBasic : Nat → List Char → Option (List Char × List Char)
  | 0, _ => none
  | _, [] => none
  | fuel + 1, c :: cs =>
    if c = '"' then some ([], cs)
    else if c = '\\' then do
      let (e, rest) ← readEscape cs
      let (text, rest) ← readBasic fuel rest
      return (e :: text, rest)
    else if isControl c then none
    else do
      let (text, rest) ← readBasic fuel cs
      return (c :: text, rest)

/-- A string in single quotes behind its opening quote, and what follows it. -/
def readLiteral (cs : List Char) : Option (List Char × List Char) :=
  let text := cs.takeWhile (· ≠ '\'')
  match cs.drop text.length with
  | [] => none
  | _ :: rest => if text.any isControl then none else some (text, rest)

/-- Without blanks and line breaks at the front; nothing if a carriage return ends no line. -/
def skipSpace? : List Char → Option (List Char)
  | '\r' :: '\n' :: cs => skipSpace? cs
  | '\r' :: _ => none
  | c :: cs => if isBlank c || c = '\n' then skipSpace? cs else some (c :: cs)
  | [] => some []

/-- What follows the end of a line, in front of which only blanks may stand. -/
def afterLine? (cs : List Char) : Option (List Char) := afterBreak? (skipBlank cs)

/-- A string in three quotes behind its opening quotes, and what follows it. One or two quotes belong to the text, also
in front of the closing three, and more do not. A backslash at the end of a line joins it with the next text. -/
def readLong (quote : Char) : Nat → List Char → Option (List Char × List Char)
  | 0, _ => none
  | _, [] => none
  | fuel + 1, c :: cs =>
    let quotes := ((c :: cs).takeWhile (· = quote)).length
    if 6 ≤ quotes then none
    else if 3 ≤ quotes then some (List.replicate (quotes - 3) quote, (c :: cs).drop quotes)
    else if c = '\\' ∧ quote = '"' then
      match afterLine? cs with
      | some rest => do readLong quote fuel (← skipSpace? rest)
      | none => do
        let (e, rest) ← readEscape cs
        let (text, rest) ← readLong quote fuel rest
        return (e :: text, rest)
    else if (afterBreak? (c :: cs)).isNone && isControl c then none
    else do
      let (text, rest) ← readLong quote fuel cs
      return (c :: text, rest)

/-- A string in three quotes behind its opening quotes; a line break right behind them is dropped. -/
def readBlock (quote : Char) (cs : List Char) : Option (List Char × List Char) :=
  readLong quote (cs.length + 1) ((afterBreak? cs).getD cs)

/-- A string and what follows it. -/
def readString (cs : List Char) : Option (List Char × List Char) :=
  match cs with
  | '"' :: '"' :: '"' :: rest => readBlock '"' rest
  | '\'' :: '\'' :: '\'' :: rest => readBlock '\'' rest
  | '"' :: rest => readBasic (rest.length + 1) rest
  | '\'' :: rest => readLiteral rest
  | _ => none

/-! ### Names -/

/-- Whether a character may stand in a name without quotes. -/
def isBare (c : Char) : Bool := c.isAlphanum || c = '_' || c = '-'

/-- One part of a name and what follows it. -/
def readPart (cs : List Char) : Option (String × List Char) :=
  match cs with
  | '"' :: rest => (readBasic (rest.length + 1) rest).map fun (text, rest) => (String.ofList text, rest)
  | '\'' :: rest => (readLiteral rest).map fun (text, rest) => (String.ofList text, rest)
  | cs =>
    let name := cs.takeWhile isBare
    if name.isEmpty then none else some (String.ofList name, cs.drop name.length)

/-- The parts of a name, with points and blanks between them, and what follows the name and blanks behind it. -/
def readParts : Nat → List Char → Option (Name × List Char)
  | 0, _ => none
  | fuel + 1, cs => do
    let (part, rest) ← readPart (skipBlank cs)
    match skipBlank rest with
    | '.' :: rest =>
      let (parts, rest) ← readParts fuel rest
      return (part :: parts, rest)
    | rest => return ([part], rest)

/-- A name and what follows it and blanks behind it. -/
def readName (cs : List Char) : Option (Name × List Char) := readParts (cs.length + 1) cs

end CliffordT.Toml
