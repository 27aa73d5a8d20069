import CliffordT.Yaml.Place

/-!
# YAML scalars as blocks

Behind a bar the lines of a block stand for themselves; behind an angle bracket they are folded, unless they start with
a blank. The head of a block may say how far its lines are indented and what becomes of the line breaks at its end.
-/

namespace CliffordT.Yaml

/-- What becomes of the line breaks at the end of a block. -/
inductive Chomp where
  | strip
  | clip
  | keep
deriving DecidableEq, Repr

/-- What the head of a block says: its indentation, if given, and its end. -/
structure BlockHead where
  indent : Option Nat
  chomp : Chomp
deriving Repr

namespace BlockHead

/-- What becomes of the end, if a character says so, and the place behind it. -/
def readChomp (p : Place) : Option Chomp × Place :=
  if p.next? = some '+' then (some .keep, p.step)
  else if p.next? = some '-' then (some .strip, p.step)
  else (none, p)

/-- The indentation, if a digit gives it, and the place behind it; zero is an error. -/
def readIndent (p : Place) : Option (Option Nat × Place) :=
  match p.next? with
  | some c => if c = '0' then none else if c.isDigit then some (some (c.toNat - 48), p.step) else some (none, p)
  | none => some (none, p)

/-- Read what follows the bar or angle bracket on its line: the two marks in any order, blanks and a comment. -/
def read (p : Place) : Option (BlockHead × Place) := do
  let (before, p) := readChomp p
  let (indent, p) ← readIndent p
  let (chomp, p) := if before.isNone && indent.isSome then readChomp p else (before, p)
  let p := p.skip isBlank
  let p := if p.next? = some '#' then p.lineEnd else p
  if breakNext p.rest then some (⟨indent, chomp.getD .clip⟩, p.skipBreak) else none

end BlockHead

/-- Empty lines and indentation in a block. -/
structure Leading where
  /-- the breaks of the empty lines -/
  breaks : List Char
  /-- the largest column reached -/
  deepest : Nat
  behind : Place

/-- Pass empty lines and the indentation of the next line, which is at most `limit` columns if there is a limit. A tab
in the indentation is an error. -/
def Leading.read (limit : Option Nat) : Nat → Leading → Option Leading
  | 0, l => some l
  | fuel + 1, l =>
    let inside (p : Place) : Bool := match limit with | some n => p.column < n | none => true
    let spaces := (l.behind.rest.takeWhile (· = ' ')).length
    let count := match limit with | some n => min spaces (n - l.behind.column) | none => spaces
    let p := l.behind.steps count
    let deepest := max l.deepest p.column
    if inside p && p.next? = some '\t' then none
    else
      let (b, next) := p.readBreak
      if b.isEmpty then some ⟨l.breaks, deepest, p⟩
      else read limit fuel ⟨l.breaks ++ b, deepest, next⟩

/-- Pass empty lines and the indentation of the next line. -/
def Leading.start (limit : Option Nat) (p : Place) : Option Leading := read limit (p.left + 1) ⟨[], 0, p⟩

/-- Whether a blank comes next. -/
def blankHere (p : Place) : Bool := (p.next?.map isBlank).getD false

/-- A block from its first line that is not empty. -/
structure Block where
  text : List Char
  /-- the break at the end of the last line -/
  last : List Char
  /-- the breaks of the empty lines behind it -/
  trailing : List Char
  behind : Place

/-- Read the lines of a block at an indentation, behind a line that started with a blank or not and ended with the break
`last`, and behind the breaks of empty lines. -/
def Block.readFrom (folds : Bool) (indent : Nat) : Nat → Bool → List Char → Leading → Option Block
  | 0, _, _, _ => none
  | fuel + 1, blankBefore, last, leading =>
    let p := leading.behind
    if p.column ≠ indent ∨ p.rest.isEmpty then some ⟨[], last, leading.breaks, p⟩
    else do
      let blank := blankHere p
      let joint :=
        if folds && !blankBefore && !blank && last = ['\n'] then if leading.breaks.isEmpty then [' '] else []
        else last
      let (line, p) := p.span fun c => !isBreak c
      let (b, p) := p.readBreak
      let next ← Leading.start (some indent) p
      let more ← readFrom folds indent fuel blank b next
      return { more with text := joint ++ leading.breaks ++ line ++ more.text }

/-- Read a block from its bar or angle bracket, inside a structure at column `outer`. -/
def readBlock (outer : Int) (p : Place) : Option (String × Place) := do
  let folds : Bool := p.next? = some '>'
  let (head, p) ← BlockHead.read p.step
  let given := head.indent.map fun n => (max outer 0).toNat + n
  let leading ← Leading.start given p
  let indent := given.getD (max leading.deepest (max (outer + 1).toNat 1))
  let block ← Block.readFrom folds indent (p.left + 2) false [] leading
  let tail :=
    match head.chomp with
    | .strip => []
    | .clip => block.last
    | .keep => block.last ++ block.trailing
  return (String.ofList (block.text ++ tail), block.behind)

end CliffordT.Yaml
