import CliffordT.Yaml.Token.Block
import CliffordT.Yaml.Token.Plain
import CliffordT.Yaml.Token.Property

/-!
# The tokens of a YAML text

Tokens are read a little ahead of those that are taken: a scalar, a bracket or a property may turn out to be a key only
when a colon follows it on its line, and then the token of the key has to stand in front of it. Such a start of a key
is remembered for each level of brackets, and the token at the front is not taken while it may still become a key.
Outside brackets the column of what comes next closes blocks, and that of an item or a key opens them.
-/

namespace CliffordT.Yaml

/-- Where a key may have started. -/
structure KeyStart where
  /-- whether a colon would still make it a key -/
  possible : Bool
  /-- whether it has to be a key, since it stands in the column of a block -/
  required : Bool
  /-- the number of its token -/
  number : Nat
  index : Nat
  line : Nat
  column : Nat

/-- The tokens of a text, and how far it was read. -/
structure Tokens where
  place : Place
  /-- tokens that were read and not yet taken -/
  ahead : List Token
  /-- how many tokens were taken -/
  taken : Nat
  /-- the column of the innermost block, below zero outside all blocks -/
  indent : Int
  /-- the columns of the blocks around it -/
  outer : List Int
  /-- where keys may have started: inside each pair of brackets, the innermost first, and outside them -/
  keys : List KeyStart
  /-- the tokens that may become keys, by their numbers, with the level of brackets around them -/
  watched : List (Nat × Nat)
  /-- whether a key may start here -/
  keyAllowed : Bool
  /-- more tokens than the text can have -/
  bound : Nat

/-- How deep brackets and blocks may be nested. -/
def maxDepth : Nat := 10000

/-- How far a key may reach. -/
def maxKey : Nat := 1024

/-- How far a comment is searched for. -/
def maxSearch : Nat := 512

/-! ### Blanks and comments -/

/-- Go on to the character with a number. -/
def Place.goTo (index : Nat) : Nat → Place → Place
  | 0, p => p
  | fuel + 1, p =>
    if index ≤ p.index then p
    else goTo index fuel (if breakNext p.rest then p.skipBreak else p.step)

/-- The end of a comment and of the comments on the lines behind it, between which only blank lines stand. -/
def Place.commentEnd : Nat → Place → Place
  | 0, p => p
  | fuel + 1, p =>
    let p := p.lineEnd
    match p.rest with
    | [] => p
    | c :: cs =>
      let blanks := (cs.takeWhile fun c => isBlank c || c = '\n' || c = '\r').length
      if (c = '\n' || c = '\r') && blanks + 1 < maxSearch && (cs.drop blanks).head? = some '#' then
        (p.goTo (p.index + blanks + 1) (blanks + 1)).commentEnd fuel
      else p

/-- The place behind a comment on the same line. -/
def Place.lineComment (p : Place) : Place :=
  let blanks := (p.rest.takeWhile isBlank).length
  if p.breaks = 0 && blanks < maxSearch && (p.rest.drop blanks).head? = some '#' then p.lineEnd else p

/-- The place of the next token, and whether a key may start there. Tabs are skipped inside brackets and where no key
may start. -/
def Place.nextToken (flow : Bool) : Nat → Bool → Place → Bool × Place
  | 0, allowed, p => (allowed, p)
  | fuel + 1, allowed, p =>
    let p := if p.index = 0 && p.next? = some (Char.ofNat 0xfeff) then p.step else p
    let p := p.skip fun c => c = ' ' || (c = '\t' && (flow || !allowed))
    let p := if p.next? = some '#' then p.commentEnd (p.left + 1) else p
    let (b, next) := p.readBreak
    if b.isEmpty then (allowed, p) else next.nextToken flow fuel (allowed || !flow)

namespace Tokens

/-- The tokens of a text, none of them read. -/
def start (cs : List Char) : Tokens where
  place := .start cs
  ahead := []
  taken := 0
  indent := -1
  outer := []
  keys := [⟨false, false, 0, 0, 0, 0⟩]
  watched := []
  keyAllowed := true
  bound := 8 * cs.length + 64

/-- How many pairs of brackets are open. -/
def level (t : Tokens) : Nat := t.keys.length - 1

/-- Whether a bracket is open. -/
def inFlow (t : Tokens) : Bool := 0 < t.level

/-- The number of the next token. -/
def nextNumber (t : Tokens) : Nat := t.taken + t.ahead.length

/-- Add a token. -/
def push (t : Tokens) (token : Token) : Tokens := { t with ahead := t.ahead ++ [token] }

/-- Add a token in front of the one with a number, or behind all tokens if that one was taken. -/
def insertAt (t : Tokens) (number : Nat) (token : Token) : Tokens :=
  if number < t.taken then t.push token
  else
    let k := number - t.taken
    { t with ahead := t.ahead.take k ++ token :: t.ahead.drop k }

/-! ### Keys -/

/-- Stop watching a token. -/
def unwatch (t : Tokens) (number : Nat) : Tokens := { t with watched := t.watched.filter fun (n, _) => n ≠ number }

/-- Where a key may have started at this level. -/
def key (t : Tokens) : KeyStart := t.keys.headD ⟨false, false, 0, 0, 0, 0⟩

/-- With another start of a key at this level. -/
def withKey (t : Tokens) (k : KeyStart) : Tokens := { t with keys := k :: t.keys.drop 1 }

/-- Give up the start of a key at this level; an error if it had to be one. -/
def dropKey (t : Tokens) : Option Tokens :=
  let k := t.key
  if !k.possible then some t
  else if k.required then none
  else some ((t.withKey { k with possible := false }).unwatch k.number)

/-- Remember that a key may start here. -/
def saveKey (t : Tokens) : Option Tokens :=
  if !t.keyAllowed then some t
  else do
    let p := t.place
    let required : Bool := !t.inFlow && t.indent = (p.column : Int)
    let k : KeyStart := ⟨true, required, t.nextNumber, p.index, p.line, p.column⟩
    let t ← t.dropKey
    let t := t.unwatch k.number
    return { t.withKey k with watched := (k.number, t.level) :: t.watched }

/-- Whether a start of a key is still on its line and not too far away. -/
def isNear (k : KeyStart) (p : Place) : Bool := k.line = p.line && p.index ≤ k.index + maxKey

/-- Whether a key may have started at a level; an error if it had to be one and cannot be. -/
def checkKey (t : Tokens) (level : Nat) : Option (Bool × Tokens) :=
  let i := t.level - level
  match t.keys.drop i with
  | [] => some (false, t)
  | k :: outer =>
    if !k.possible then some (false, t)
    else if isNear k t.place then some (true, t)
    else if k.required then none
    else some (false, { t with keys := t.keys.take i ++ { k with possible := false } :: outer })

/-! ### Blocks -/

/-- How many blocks end in front of a column, and the blocks that are left. -/
def unrolled (column : Int) : Int → List Int → Nat × Int × List Int
  | indent, [] => (0, indent, [])
  | indent, o :: os =>
    if column < indent then
      let (n, rest) := unrolled column o os
      (n + 1, rest)
    else (0, indent, o :: os)

/-- End the blocks whose column is behind a given one. -/
def unroll (t : Tokens) (column : Int) : Tokens :=
  if t.inFlow then t
  else
    let (n, indent, outer) := unrolled column t.indent t.outer
    { t with ahead := t.ahead ++ List.replicate n .blockEnd, indent := indent, outer := outer }

/-- Start a block in a column, unless the innermost one is in it, by a token in front of the one with a number. -/
def roll (t : Tokens) (column : Nat) (number : Nat) (token : Token) : Option Tokens :=
  if t.inFlow || (column : Int) ≤ t.indent then some t
  else if maxDepth ≤ t.outer.length then none
  else some ({ t with outer := t.indent :: t.outer, indent := column }.insertAt number token)

/-! ### Reading a token -/

/-- Add a token and go on behind it. -/
def pushAt (t : Tokens) (p : Place) (token : Token) : Tokens := { t with place := p }.push token

/-- The end of the text. -/
def readEnd (t : Tokens) : Option Tokens := do
  let p := t.place
  let p := if p.column = 0 then p else { p with column := 0, line := p.line + 1 }
  let t ← ({ t with place := p }.unroll (-1)).dropKey
  return { t with keyAllowed := false }.push .streamEnd

/-- A directive or a mark of a document. -/
def readTop (t : Tokens) (read : Place → Option (Token × Place)) : Option Tokens := do
  let t ← (t.unroll (-1)).dropKey
  let (token, p) ← read t.place
  return { t with keyAllowed := false }.pushAt p token

/-- An opening bracket. -/
def readOpen (t : Tokens) (token : Token) : Option Tokens := do
  let t ← t.saveKey
  let p := t.place
  let t := { t with keys := ⟨false, false, t.nextNumber, p.index, p.line, p.column⟩ :: t.keys, keyAllowed := true }
  if maxDepth < t.level then none else some (t.pushAt p.step token)

/-- A closing bracket. -/
def readClose (t : Tokens) (token : Token) : Option Tokens := do
  let t ← t.dropKey
  let t := if t.inFlow then { t.unwatch t.key.number with keys := t.keys.drop 1 } else t
  return { t with keyAllowed := false }.pushAt t.place.step token

/-- A comma. -/
def readComma (t : Tokens) : Option Tokens := do
  let t ← t.dropKey
  return { t with keyAllowed := true }.pushAt t.place.step .comma

/-- A dash in front of an item. -/
def readItem (t : Tokens) : Option Tokens := do
  if !t.inFlow && !t.keyAllowed then none
  let t ← t.roll t.place.column t.nextNumber .blockSequence
  let t ← t.dropKey
  return { t with keyAllowed := true }.pushAt t.place.step .item

/-- A question mark in front of a key. -/
def readKeyMark (t : Tokens) : Option Tokens := do
  if !t.inFlow && !t.keyAllowed then none
  let t ← t.roll t.place.column t.nextNumber .blockMapping
  let t ← t.dropKey
  return { t with keyAllowed := !t.inFlow }.pushAt t.place.step .key

/-- A colon in front of a value. -/
def readValueMark (t : Tokens) : Option Tokens := do
  let (valid, t) ← t.checkKey t.level
  if valid then
    let k := t.key
    let t ← (t.insertAt k.number .key).roll k.column k.number .blockMapping
    let t := (t.withKey { k with possible := false }).unwatch k.number
    return { t with keyAllowed := false }.pushAt t.place.step .value
  else
    if !t.inFlow && !t.keyAllowed then none
    let t ← t.roll t.place.column t.nextNumber .blockMapping
    return { t with keyAllowed := !t.inFlow }.pushAt t.place.step .value

/-- A property or a quoted scalar, which may be or start a key. -/
def readSimple (t : Tokens) (read : Place → Option (Token × Place)) : Option Tokens := do
  let t ← t.saveKey
  let (token, p) ← read t.place
  return { t with keyAllowed := false }.pushAt p token

/-- A block scalar. -/
def readBlockScalar (t : Tokens) : Option Tokens := do
  let t ← t.dropKey
  let (text, p) ← readBlock t.indent t.place
  return { t with keyAllowed := true }.pushAt p (.scalar false text)

/-- A plain scalar. -/
def readPlain (t : Tokens) : Option Tokens := do
  let t ← t.saveKey
  let plain ← Plain.read t.inFlow (t.indent + 1).toNat t.place
  return { t with keyAllowed := plain.broken }.pushAt plain.behind (.scalar true (String.ofList plain.text))

/-- The token that starts with a character in front of some others. -/
def readFrom (t : Tokens) (c : Char) (rest : List Char) : Option Tokens :=
  if c = '[' then t.readOpen .flowSequence
  else if c = '\x7b' then t.readOpen .flowMapping
  else if c = ']' then t.readClose .flowSequenceEnd
  else if c = '\x7d' then t.readClose .flowMappingEnd
  else if c = ',' then t.readComma
  else if c = '-' && blankNext rest then t.readItem
  else if c = '?' && (t.inFlow || blankNext rest) then t.readKeyMark
  else if c = ':' && (t.inFlow || blankNext rest) then t.readValueMark
  else if c = '*' then t.readSimple fun p => (readAnchor p).map fun (name, p) => (.alias name, p)
  else if c = '&' then t.readSimple fun p => (readAnchor p).map fun (name, p) => (.anchor name, p)
  else if c = '!' then t.readSimple readTag
  else if (c = '|' || c = '>') && !t.inFlow then t.readBlockScalar
  else if c = '\'' || c = '"' then t.readSimple fun p => (readQuoted c p).map fun (text, p) => (.scalar false text, p)
  else if startsPlain t.inFlow (c :: rest) then t.readPlain
  else none

/-- Read one more token, with those that its column makes. -/
def readNext (t : Tokens) : Option Tokens := do
  let (allowed, p) := t.place.nextToken t.inFlow (t.place.left + 1) t.keyAllowed
  let t := { t with place := p, keyAllowed := allowed }.unroll p.column
  match p.rest with
  | [] => t.readEnd
  | c :: rest =>
    if p.column = 0 && c = '%' then t.readTop readDirective
    else if p.atMark '-' then t.readTop fun p => some (.documentStart, p.steps 3)
    else if p.atMark '.' then t.readTop fun p => some (.documentEnd, p.steps 3)
    else
      let t ← t.readFrom c rest
      return if t.ahead.getLast? = some .item then t else { t with place := t.place.lineComment }

/-! ### Taking tokens -/

/-- Read ahead until two tokens stand behind the first one and the first one can no longer become a key. -/
def fill : Nat → Tokens → Option Tokens
  | 0, t => some t
  | fuel + 1, t =>
    if t.ahead.length < 3 then t.readNext.bind (fill fuel)
    else
      match t.watched.lookup t.taken with
      | none => some t
      | some level =>
        match t.checkKey level with
        | none => none
        | some (false, t) => some t
        | some (true, t) => t.readNext.bind (fill fuel)

/-- The first token. -/
def peek (t : Tokens) : Option (Token × Tokens) := do
  let t ← t.fill t.bound
  match t.ahead with
  | [] => none
  | token :: _ => some (token, t)

/-- Take the first token. -/
def drop (t : Tokens) : Tokens := { t with ahead := t.ahead.drop 1, taken := t.taken + 1 }

end Tokens

end CliffordT.Yaml
