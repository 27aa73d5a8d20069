import CliffordT.Text.Quoted
import CliffordT.Yaml.Basic
import CliffordT.Yaml.Character
import CliffordT.Yaml.Meaning

/-!
# Writing YAML

Sequences and mappings are written as blocks, each level two columns further in; an empty one stands in brackets. A
scalar that is not marked as a text is written as it is. A text is written plain if no reader takes it for something
else, else in single quotes, else in double quotes; a text with line feeds is written as a block where it can be.
-/

namespace CliffordT.Yaml

/-- Whether a character is written as it is inside double quotes, apart from the quote and the backslash. -/
def isShown (c : Char) : Bool :=
  let n := c.toNat
  n = 10 || (0x20 ≤ n && n ≤ 0x7e) || (0xa0 ≤ n && n ≤ 0xffff && n ≠ 0xfeff && n ≠ 0xfffe && n ≠ 0xffff)

/-- Whether a text is a number in base sixty: groups of digits between colons, each group behind the first below sixty,
and a fraction at the end. -/
def isSexagesimal (s : String) : Bool :=
  let below60 (g : List Char) : Bool :=
    match g with
    | [a] => a.isDigit
    | [a, b] => '0' ≤ a && a ≤ '5' && b.isDigit
    | _ => false
  let unscored (g : List Char) : Bool := g.all fun c => c.isDigit || c = '_'
  match (String.ofList (Decimal.splitSign s.toList).2).splitOn ":" with
  | first :: second :: rest =>
    let groups := second :: rest
    let last := (groups.getLastD "").toList
    let fraction := (last.dropWhile (· ≠ '.')).drop 1
    (first.toList.head?.map Char.isDigit).getD false && unscored first.toList &&
      groups.dropLast.all (below60 ·.toList) && below60 (last.takeWhile (· ≠ '.')) && unscored fraction
  | _ => false

/-- Words that older readers take for truth values. -/
def isOldBool (s : String) : Bool :=
  ["y", "Y", "yes", "Yes", "YES", "on", "On", "ON", "n", "N", "no", "No", "NO", "off", "Off", "OFF"].contains s

/-- Whether a plain text stands for something else than itself, or does for older readers. -/
def isAmbiguous (s : String) : Bool :=
  match resolve s with
  | .text _ => isSexagesimal s || isOldBool s
  | _ => true

/-- Whether a text starts, ends or goes on in a way that a plain scalar of a block cannot. -/
def hasIndicator (cs : List Char) : Bool :=
  let marked : Bool := ['-', '-', '-'].isPrefixOf cs || ['.', '.', '.'].isPrefixOf cs
  let first : Bool :=
    match cs with
    | [] => false
    | c :: rest =>
      let alone := rest.isEmpty || rest.head? = some ' ' || rest.head? = some '\t'
      ['#', ',', '[', ']', '\x7b', '\x7d', '&', '*', '!', '|', '>', '\'', '"', '%', '@'].contains c || c.toNat = 96 ||
        ((c = '?' || c = ':' || c = '-') && alone)
  let later : Bool := (cs.zip (cs.drop 1)).any fun (a, b) => (a = ':' && (b = ' ' || b = '\t')) ||
    ((a = ' ' || a = '\t' || a = '\n') && b = '#')
  marked || first || later || cs.getLast? = some ':'

/-- Whether a text has a blank at its start or end. -/
def hasOuterBlank (cs : List Char) : Bool :=
  cs.head? = some ' ' || cs.getLast? = some ' ' || (cs.head?.map isBreak).getD false ||
    (cs.getLast?.map isBreak).getD false

/-- Whether a blank stands next to a line break. -/
def blankAtBreak (cs : List Char) : Bool :=
  (cs.zip (cs.drop 1)).any fun (a, b) => (a = ' ' && isBreak b) || (isBreak a && b = ' ')

/-- Whether a blank stands before a line break. -/
def blankBeforeBreak (cs : List Char) : Bool := (cs.zip (cs.drop 1)).any fun (a, b) => a = ' ' && isBreak b

/-- Whether some character cannot be written as it is. -/
def hasHidden (cs : List Char) : Bool := cs.any fun c => !isShown c && c ≠ '\t'

/-- A character by its escape. -/
def escaped (c : Char) : List Char :=
  let n := c.toNat
  let upper (cs : List Char) : List Char := cs.map Char.toUpper
  '\\' ::
    match n with
    | 0 => ['0']
    | 7 => ['a']
    | 8 => ['b']
    | 9 => ['t']
    | 10 => ['n']
    | 11 => ['v']
    | 12 => ['f']
    | 13 => ['r']
    | 27 => ['e']
    | 34 => ['"']
    | 92 => ['\\']
    | 0x85 => ['N']
    | 0xa0 => ['_']
    | 0x2028 => ['L']
    | 0x2029 => ['P']
    | n =>
      if n ≤ 0xff then 'x' :: upper (Text.hex 2 n)
      else if n ≤ 0xffff then 'u' :: upper (Text.hex 4 n)
      else 'U' :: upper (Text.hex 8 n)

/-- A text in double quotes. Behind a byte-order mark at its start every character is escaped. -/
def doubleQuoted (cs : List Char) : List Char :=
  let marked : Bool := cs.head? = some (Char.ofNat 0xfeff)
  let shown (c : Char) : Bool := !marked && isShown c && !isBreak c && c ≠ '"' && c ≠ '\\'
  '"' :: (cs.flatMap (fun c => if shown c then [c] else escaped c) ++ ['"'])

/-- Some spaces. -/
def spaces (n : Nat) : List Char := List.replicate n ' '

/-- The inside of a text in single quotes, behind a line break or not. What follows a break is indented. -/
def singleInside (indent : Nat) : Bool → List Char → List Char
  | _, [] => []
  | broken, c :: cs =>
    if isBreak c then c :: singleInside indent true cs
    else
      (if broken then spaces indent else []) ++ (if c = '\'' then [c, c] else [c]) ++ singleInside indent false cs

/-- A text in single quotes. -/
def singleQuoted (indent : Nat) (cs : List Char) : List Char := '\'' :: (singleInside indent false cs ++ ['\''])

/-- Where a character of a block stands. -/
inductive LinePart where
  | head
  | start
  | inside
deriving DecidableEq, Repr

/-- The lines of a block. A line break at the start of the text is the one that ends the head. -/
def blockInside (indent : Nat) : LinePart → List Char → List Char
  | _, [] => []
  | part, c :: cs =>
    if isBreak c then c :: blockInside indent .start cs
    else
      (match part with
        | .head => '\n' :: spaces indent
        | .start => spaces indent
        | .inside => []) ++ c :: blockInside indent .inside cs

/-- A text as a block: the head, which says how far the lines are indented if the first starts with a space, and what
becomes of the last breaks, then the lines. -/
def blockText (indent : Nat) (cs : List Char) : List Char :=
  let startsBlank : Bool := match cs with | c :: _ => c = ' ' || isBreak c | [] => false
  let chomp : List Char :=
    match cs.reverse with
    | [] => ['-']
    | [c] => if isBreak c then ['+'] else ['-']
    | c :: d :: _ => if !isBreak c then ['-'] else if isBreak d then ['+'] else []
  '|' :: (if startsBlank then ['2'] else []) ++ chomp ++ blockInside indent .head cs

/-- A text as a scalar whose further lines are indented. -/
def scalarText (indent : Nat) (s : String) : List Char :=
  let cs := s.toList
  if cs.contains '\n' then
    if cs.getLast? = some ' ' ∨ blankBeforeBreak cs ∨ hasHidden cs then doubleQuoted cs else blockText indent cs
  else if isAmbiguous s then doubleQuoted cs
  else if hasHidden cs ∨ cs.contains '\t' ∨ blankAtBreak cs then doubleQuoted cs
  else if hasIndicator cs ∨ hasOuterBlank cs ∨ cs.any isBreak then singleQuoted indent cs
  else cs

/-- The rest of a line, ended by a line break unless it ends with one. -/
def ended (cs : List Char) : String :=
  String.ofList (if (cs.getLast?.map isBreak).getD false then cs else cs ++ ['\n'])

/-- What stands between a key and its value: a blank, or a new line in front of a collection that is not empty. -/
def beforeValue (indent : Nat) : Yaml → String
  | .sequence (_ :: _) => String.ofList ('\n' :: spaces indent)
  | .mapping (_ :: _) => String.ofList ('\n' :: spaces indent)
  | _ => " "

/-- The text of a key with the colon behind it; a key is a scalar. -/
def keyText (indent : Nat) : Yaml → String
  | .scalar isText s => String.ofList ((if isText then scalarText indent s else s.toList) ++ [':'])
  | _ => ":"

mutual

/-- The text of a node in pieces, from where it starts on its first line to the end of its last line. Further lines are
indented. -/
def pieces (indent : Nat) : Yaml → List String
  | .scalar isText s => [ended (if isText then scalarText indent s else s.toList)]
  | .sequence [] => ["[]\n"]
  | .sequence (item :: items) => "- " :: pieces (indent + 2) item ++ itemPieces indent items
  | .mapping [] => ["\x7b\x7d\n"]
  | .mapping ((key, value) :: members) =>
    keyText indent key :: beforeValue (indent + 2) value :: pieces (indent + 2) value ++ memberPieces indent members

/-- The text of further items of a sequence. -/
def itemPieces (indent : Nat) : List Yaml → List String
  | [] => []
  | item :: items =>
    String.ofList (spaces indent ++ ['-', ' ']) :: pieces (indent + 2) item ++ itemPieces indent items

/-- The text of further members of a mapping. -/
def memberPieces (indent : Nat) : List (Yaml × Yaml) → List String
  | [] => []
  | (key, value) :: members =>
    String.ofList (spaces indent) :: keyText indent key :: beforeValue (indent + 2) value ::
      pieces (indent + 2) value ++ memberPieces indent members

end

/-- The text of a document. -/
def render (node : Yaml) : String := String.join (pieces 0 node)

end CliffordT.Yaml
