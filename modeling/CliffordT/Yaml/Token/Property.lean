import CliffordT.Yaml.Token.Basic
import CliffordT.Yaml.Token.Quoted

/-!
# Directives and properties of YAML nodes

Directives stand at the start of a line in front of a document. An anchor names a node, an alias stands for the node of
that name, and a tag says what kind a node is of.
-/

namespace CliffordT.Yaml

/-- Read the name of an anchor or an alias from its mark. -/
def readAnchor (p : Place) : Option (String × Place) :=
  let (name, p) := p.step.span isNameChar
  let ends : Bool :=
    blankNext p.rest ||
      (match p.next? with
        | some c => ['?', ':', ',', ']', '\x7d', '%', '@'].contains c || c.toNat = 96
        | none => true)
  if name.isEmpty || !ends then none else some (String.ofList name, p)

/-! ### Tags -/

/-- How many bytes a character takes that starts with a byte. -/
def byteCount (b : Nat) : Nat :=
  if b < 0x80 then 1
  else if b < 0xc0 then 0
  else if b < 0xe0 then 2
  else if b < 0xf0 then 3
  else if b < 0xf8 then 4
  else 0

/-- A byte behind a percent sign. -/
def percentByte? : List Char → Option Nat
  | '%' :: a :: b :: _ => hexNumber? [a, b]
  | _ => none

/-- The characters of a tag, and the place behind them. Bytes of one character behind percent signs have to follow each
other; `due` of them are still to come. -/
def tagChars : Nat → Nat → Place → Option (List Char × Place)
  | 0, _, _ => none
  | fuel + 1, due, p =>
    match p.rest with
    | [] => if due = 0 then some ([], p) else none
    | c :: cs =>
      if c = '%' then do
        let b ← percentByte? (c :: cs)
        let due ←
          if due = 0 then if byteCount b = 0 then none else some (byteCount b - 1)
          else if 0x80 ≤ b ∧ b < 0xc0 then some (due - 1)
          else none
        let (text, p) ← tagChars fuel due (p.steps 3)
        return (Char.ofNat b :: text, p)
      else if 0 < due then none
      else if isTagChar c then (tagChars fuel 0 p.step).map fun (text, p) => (c :: text, p)
      else some ([], p)

/-- Read characters of a tag behind those that were read before. -/
def readTagChars (before : List Char) (p : Place) : Option (String × Place) := do
  let (cs, p) ← tagChars (p.left + 1) 0 p
  return (String.ofList (before ++ cs), p)

/-- A tag's handle, which ends with an exclamation mark, or its characters up to there, and the place behind them. -/
def readHandle (p : Place) : Option (List Char × Place) :=
  if p.next? ≠ some '!' then none
  else
    let (name, p) := p.step.span isNameChar
    if p.next? = some '!' then some ('!' :: name ++ ['!'], p.step) else some ('!' :: name, p)

/-- Whether a text is a handle of a tag and not only its start. -/
def isHandle (cs : List Char) : Bool := 1 < cs.length && cs.getLast? = some '!'

/-- Read a tag: by its whole text in angle brackets, or by a handle and a name. -/
def readTag (p : Place) : Option (Token × Place) := do
  let (token, p) ←
    match p.rest with
    | '!' :: '<' :: _ => do
      let (text, p) ← readTagChars [] (p.steps 2)
      if text.isEmpty || p.next? ≠ some '>' then none else some (Token.tag "" text, p.step)
    | _ => do
      let (handle, p) ← readHandle p
      if isHandle handle then
        let (name, p) ← readTagChars [] p
        if name.isEmpty then none else some (Token.tag (String.ofList handle) name, p)
      else
        let (name, p) ← readTagChars (handle.drop 1) p
        some (if name.isEmpty then Token.tag "" "!" else Token.tag "!" name, p)
  if blankNext p.rest then some (token, p) else none

/-! ### Directives -/

/-- A number of at most two digits, and the place behind it. -/
def readShort (p : Place) : Option (Nat × Place) :=
  let (digits, p) := p.span Char.isDigit
  if digits.isEmpty ∨ 2 < digits.length then none
  else some (digits.foldl (fun n c => n * 10 + (c.toNat - 48)) 0, p)

/-- Read a version. -/
def readVersion (p : Place) : Option (Token × Place) := do
  let (major, p) ← readShort (p.skip isBlank)
  if p.next? ≠ some '.' then none
  let (minor, p) ← readShort p.step
  return (.version major minor, p)

/-- Read a handle and what it stands for. -/
def readHandleMeaning (p : Place) : Option (Token × Place) := do
  let (handle, p) ← readHandle (p.skip isBlank)
  if !isHandle handle ∧ handle ≠ ['!'] then none
  if !(p.next?.map isBlank).getD false then none
  let (text, p) ← readTagChars [] (p.skip isBlank)
  if text.isEmpty || !blankNext p.rest then none
  return (.handle (String.ofList handle) text, p)

/-- Read a directive from its percent sign to the end of its line. -/
def readDirective (p : Place) : Option (Token × Place) := do
  let (name, p) := p.step.span isNameChar
  if !blankNext p.rest then none
  let (token, p) ←
    match String.ofList name with
    | "YAML" => readVersion p
    | "TAG" => readHandleMeaning p
    | _ => none
  let p := p.skip isBlank
  let p := if p.next? = some '#' then p.lineEnd else p
  if breakNext p.rest then some (token, p.skipBreak) else none

end CliffordT.Yaml
