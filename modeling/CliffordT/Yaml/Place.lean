import CliffordT.Yaml.Character

/-!
# Places in a YAML text

A place is the rest of a text with its position: how many characters stand before it, its line and its column. It also
counts the characters that are left and the line breaks behind the last character that is no blank.
-/

namespace CliffordT.Yaml

/-- The rest of a text and where it starts. -/
structure Place where
  rest : List Char
  /-- the number of characters in the rest -/
  left : Nat
  index : Nat
  line : Nat
  column : Nat
  /-- line breaks since the last character that is no blank -/
  breaks : Nat

namespace Place

/-- The start of a text. -/
def start (cs : List Char) : Place := ⟨cs, cs.length, 0, 0, 0, 0⟩

/-- The next character. -/
def next? (p : Place) : Option Char := p.rest.head?

/-- The place behind one character of a line. -/
def step (p : Place) : Place :=
  match p.rest with
  | [] => p
  | c :: cs => ⟨cs, p.left - 1, p.index + 1, p.line, p.column + 1, if isBlank c then p.breaks else 0⟩

/-- The place behind some characters of a line. -/
def steps : Nat → Place → Place
  | 0, p => p
  | n + 1, p => steps n p.step

/-- The characters of the line that a condition holds for, and the place behind them. -/
def span (condition : Char → Bool) (p : Place) : List Char × Place :=
  let cs := p.rest.takeWhile condition
  (cs, p.steps cs.length)

/-- The place behind characters of the line that a condition holds for. -/
def skip (condition : Char → Bool) (p : Place) : Place := (p.span condition).2

/-- A line break as it counts in a text, and the place behind it. The separators of Unicode stand for themselves, all
other breaks for a line feed. -/
def readBreak (p : Place) : List Char × Place :=
  match p.rest with
  | '\r' :: '\n' :: cs => (['\n'], ⟨cs, p.left - 2, p.index + 2, p.line + 1, 0, p.breaks + 1⟩)
  | c :: cs =>
    if isBreak c then
      ([if 0x2028 ≤ c.toNat then c else '\n'], ⟨cs, p.left - 1, p.index + 1, p.line + 1, 0, p.breaks + 1⟩)
    else ([], p)
  | [] => ([], p)

/-- The place behind a line break. -/
def skipBreak (p : Place) : Place := p.readBreak.2

/-- The place at the end of the line. -/
def lineEnd (p : Place) : Place := p.skip fun c => !isBreak c

/-- Whether a blank or a line break comes next. -/
def atBlank (p : Place) : Bool := !p.rest.isEmpty && blankNext p.rest

/-- Whether three of these characters stand alone at the start of a line. -/
def atMark (mark : Char) (p : Place) : Bool :=
  p.column = 0 && [mark, mark, mark].isPrefixOf p.rest && blankNext (p.rest.drop 3)

/-- Whether a line starts here that begins or ends a document. -/
def atAnyMark (p : Place) : Bool := p.atMark '-' || p.atMark '.'

end Place

end CliffordT.Yaml
