import CliffordT.Yaml.Token.Gap

/-!
# Plain YAML scalars

A plain scalar starts with a character that is no indicator and goes on over several lines as long as they are indented.
It ends in front of a colon with a blank behind it, a comment, a mark of a document, and inside brackets also in front
of a comma or a bracket.
-/

namespace CliffordT.Yaml

/-- Whether a plain scalar ends in front of a character and what follows it. -/
def endsPlain (flow : Bool) (c : Char) (rest : List Char) : Bool :=
  (c = ':' && blankNext rest) ||
    (flow && (c = ',' || c = '?' || c = '[' || c = ']' || c = '\x7b' || c = '\x7d'))

/-- Whether a plain scalar can start here. -/
def startsPlain (flow : Bool) : List Char → Bool
  | [] => false
  | c :: rest =>
    (!blankNext (c :: rest) && !isIndicator c) || (c = '-' && !(rest.head?.map isBlank).getD false) ||
      (!flow && (c = '?' || c = ':') && !blankNext rest)

/-- The characters up to a blank or the end of a plain scalar. -/
def plainWord (flow : Bool) : List Char → List Char
  | [] => []
  | c :: cs => if blankNext (c :: cs) || endsPlain flow c cs then [] else c :: plainWord flow cs

/-- A plain scalar. -/
structure Plain where
  text : List Char
  /-- whether a line break follows it -/
  broken : Bool
  /-- what follows it and blanks and breaks behind it -/
  behind : Place

/-- Read a plain scalar from behind a gap. Further lines start at column `least` at least. -/
def Plain.readFrom (flow : Bool) (least : Nat) : Nat → Gap → Place → Option Plain
  | 0, _, _ => none
  | fuel + 1, gap, p =>
    if p.atAnyMark || p.next? = some '#' then some ⟨[], gap.broken, p⟩
    else
      let word := plainWord flow p.rest
      let text := if word.isEmpty then [] else gap.text ++ word
      let p := p.steps word.length
      if !p.atBlank then some ⟨text, word.isEmpty && gap.broken, p⟩
      else do
        let (gap, p) ← Gap.read least (p.left + 1) .empty p
        if !flow && p.column < least then some ⟨text, gap.broken, p⟩
        else
          let more ← readFrom flow least fuel gap p
          return { more with text := text ++ more.text }

/-- Read a plain scalar. -/
def Plain.read (flow : Bool) (least : Nat) (p : Place) : Option Plain :=
  readFrom flow least (p.left + 1) .empty p

end CliffordT.Yaml
