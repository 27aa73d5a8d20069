import CliffordT.Text.Quoted

/-!
# Files of environment variables

A file of lines `KEY=value` or `KEY: value`, with an optional `export` in front. A value without quotes ends at the
line, before a comment that follows a blank. In quotes it may go over several lines; in double quotes escapes are
resolved. Outside single quotes a dollar sign and a name stand for the value of an earlier variable of the file. The
text is looked at byte by byte where names are concerned.
-/

namespace CliffordT.Dotenv

/-- Why a text is no such file. -/
inductive Error where
  /-- a byte that no name has, and the text from that name on -/
  | name (byte : UInt8) (near : String)
  /-- nothing where a statement should be -/
  | missing
  /-- a quote that is not closed, with the rest of its line -/
  | unclosed (value : String)
deriving DecidableEq, Repr

/-- The wording of an error. -/
def Error.message : Error → String
  | .name byte near =>
    "unexpected character " ++ Text.quoted (String.singleton (Char.ofNat byte.toNat)) ++ " in variable name near " ++
      Text.quoted near
  | .missing => "zero length string"
  | .unclosed value => "unterminated quoted value " ++ value

/-- A byte that counts as a blank within a line. -/
def isBlank (b : Nat) : Bool := b = 9 || b = 11 || b = 12 || b = 13 || b = 32 || b = 0x85 || b = 0xa0

/-- A character that separates statements. -/
def isSpace (c : Char) : Bool :=
  let n := c.toNat
  isBlank n || n = 10 || n = 0x1680 || (0x2000 ≤ n && n ≤ 0x200a) || n = 0x2028 || n = 0x2029 || n = 0x202f ||
    n = 0x205f || n = 0x3000

/-- A byte that is a letter, a digit or another number, each byte taken as the character of its number. -/
def isNameByte (b : Nat) : Bool :=
  (48 ≤ b && b ≤ 57) || (65 ≤ b && b ≤ 90) || (97 ≤ b && b ≤ 122) || b = 95 || b = 46 ||
    b = 0xaa || b = 0xb2 || b = 0xb3 || b = 0xb5 || b = 0xb9 || b = 0xba || (0xbc ≤ b && b ≤ 0xbe) ||
    (0xc0 ≤ b && b ≤ 0xd6) || (0xd8 ≤ b && b ≤ 0xf6) || 0xf8 ≤ b

/-- The first byte of a character that cannot be part of a name: neither a letter nor a digit nor a blank. -/
def strangeByte? (c : Char) : Option UInt8 :=
  (String.singleton c).toUTF8.toList.find? fun b => !(isNameByte b.toNat || isBlank b.toNat)

/-- The characters of a name and what follows its separator. A text that ends within a name has no name and is a value
as a whole; a byte that no name has is an error. -/
def splitName : List Char → List Char → Except UInt8 (List Char × Option (List Char))
  | name, [] => .ok (name, none)
  | name, c :: cs =>
    if c = '=' ∨ c = ':' then .ok (name, some cs)
    else
      match strangeByte? c with
      | none => splitName (name ++ [c]) cs
      | some byte => .error byte

/-- Whether a character may stand in the name of a variable that is referred to. -/
def isReferenceChar (c : Char) : Bool := c.isUpper || c.isDigit || c = '_'

/-- A reference behind its dollar sign: how it is written, the name in it, and what follows. -/
structure Reference where
  written : List Char
  name : List Char
  rest : List Char

/-- Split a reference: an opening parenthesis and an opening brace, a name, a closing brace, each of which may be
missing. -/
def splitReference (cs : List Char) : Reference :=
  let mark (c : Char) (cs : List Char) : List Char := if cs.head? = some c then [c] else []
  let start := mark '(' cs
  let start := start ++ mark '\x7b' (cs.drop start.length)
  let name := (cs.drop start.length).takeWhile isReferenceChar
  let written := start ++ name
  let written := written ++ mark '\x7d' (cs.drop written.length)
  ⟨written, name, cs.drop written.length⟩

/-- Put in the values of variables. A backslash in front of a dollar sign takes away its meaning. -/
def expandFrom (known : List (String × String)) : Nat → List Char → List Char
  | 0, cs => cs
  | _, [] => []
  | fuel + 1, '\\' :: '$' :: cs =>
    let r := splitReference cs
    '$' :: (r.written ++ expandFrom known fuel r.rest)
  | fuel + 1, '$' :: cs =>
    let r := splitReference cs
    let value := if r.name.isEmpty then '$' :: r.written else ((known.lookup (String.ofList r.name)).getD "").toList
    value ++ expandFrom known fuel r.rest
  | fuel + 1, c :: cs => c :: expandFrom known fuel cs

/-- Put in the values of variables. -/
def expand (known : List (String × String)) (cs : List Char) : List Char := expandFrom known cs.length cs

/-- Turn an escaped `n` and `r` into line breaks. -/
def breakEscapes : List Char → List Char
  | '\\' :: c :: cs =>
    if c = 'n' then '\n' :: breakEscapes cs
    else if c = 'r' then '\r' :: breakEscapes cs
    else if c = '\n' then '\\' :: breakEscapes (c :: cs)
    else '\\' :: c :: breakEscapes cs
  | c :: cs => c :: breakEscapes cs
  | [] => []

/-- Drop backslashes, except in front of a dollar sign. -/
def dropBackslashes : List Char → List Char
  | '\\' :: c :: cs => if c = '$' then '\\' :: dropBackslashes (c :: cs) else c :: dropBackslashes cs
  | c :: cs => c :: dropBackslashes cs
  | [] => []

/-- A text without certain characters at both ends. -/
def trim (p : Char → Bool) (cs : List Char) : List Char :=
  ((cs.dropWhile p).reverse.dropWhile p).reverse

/-- A line up to the last number sign that follows a blank. -/
def cutComment (line : List Char) : List Char :=
  let marks := (List.range line.length).filter fun i =>
    0 < i && line.getD i ' ' = '#' && isBlank (line.getD (i - 1) '#').toNat
  match marks.getLast? with
  | some i => line.take i
  | none => line

/-- The text up to a closing quote that no backslash stands before, and what follows the quote. -/
def splitQuoted (quote : Char) : Char → List Char → List Char → Option (List Char × List Char)
  | _, _, [] => none
  | before, done, c :: cs =>
    if c = quote ∧ before ≠ '\\' then some (done, cs) else splitQuoted quote c (done ++ [c]) cs

/-- The value at the front of a text and what follows it. -/
def readValue (known : List (String × String)) (cs : List Char) : Except Error (String × List Char) :=
  match cs with
  | c :: rest =>
    if c = '\'' ∨ c = '"' then
      match splitQuoted c c [] rest with
      | none => .error (.unclosed (String.ofList (cs.takeWhile (· ≠ '\n'))))
      | some (inner, rest) =>
        let value := trim (· = c) inner
        let value := if c = '"' then expand known (dropBackslashes (breakEscapes value)) else value
        .ok (String.ofList value, rest)
    else
      let line := cs.takeWhile fun c => c ≠ '\n' && c ≠ '\r'
      let value := trim (fun c => isBlank c.toNat) (cutComment line)
      .ok (String.ofList (expand known value), cs.drop line.length)
  | [] => .ok ("", [])

/-- Skip what stands between statements: blanks, line breaks and comments. -/
def skipComments : Nat → List Char → List Char
  | 0, cs => cs
  | fuel + 1, cs =>
    match cs.dropWhile isSpace with
    | '#' :: rest => skipComments fuel (rest.dropWhile (· ≠ '\n'))
    | rest => rest

/-- A name without the word in front of it that says it is exported. -/
def dropExport (cs : List Char) : List Char :=
  let word := "export".toList
  if word.isPrefixOf cs then
    let rest := cs.drop word.length
    match rest with
    | c :: _ => if isBlank c.toNat then rest.dropWhile (fun c => isBlank c.toNat) else cs
    | [] => cs
  else cs

/-- The name of a statement and the text of its value, to which more may follow. -/
def splitStatement (statement : List Char) : Except Error (String × List Char) :=
  if statement.isEmpty then .error .missing
  else
    match splitName [] statement with
    | .error byte => .error (.name byte (String.ofList statement))
    | .ok (name, some rest) => .ok (String.ofList (name.reverse.dropWhile isSpace).reverse, rest)
    | .ok (_, none) => .ok ("", statement)

/-- Read statements one by one, the variables of later ones in front. -/
def readFrom : Nat → List (String × String) → List Char → Except Error (List (String × String))
  | 0, known, _ => .ok known
  | fuel + 1, known, cs =>
    match skipComments (cs.length + 1) cs with
    | [] => .ok known
    | cs => do
      let (name, rest) ← splitStatement (dropExport cs)
      let (value, rest) ← readValue known (rest.dropWhile fun c => isBlank c.toNat)
      readFrom fuel ((name, value) :: known) rest

/-- Line breaks of two characters as one. -/
def unifyBreaks : List Char → List Char
  | [] => []
  | '\r' :: '\n' :: cs => '\n' :: unifyBreaks cs
  | c :: cs => c :: unifyBreaks cs

/-- Read the variables of a file, the later ones in front. -/
def read (s : String) : Except Error (List (String × String)) :=
  let cs := unifyBreaks s.toList
  readFrom (cs.length + 1) [] cs

end CliffordT.Dotenv
