import CliffordT.Yaml.Place

/-!
# Gaps in YAML scalars

Between the words of a plain or quoted scalar stand blanks and line breaks. Blanks within a line are kept; a line break
is folded into a space, and of several breaks the first is dropped.
-/

namespace CliffordT.Yaml

/-- Blanks and line breaks between words. -/
structure Gap where
  /-- blanks in front of the first break -/
  blanks : List Char
  /-- whether a break was passed, if only an escaped one -/
  broken : Bool
  /-- the first break -/
  first : List Char
  /-- the breaks behind it -/
  later : List Char

namespace Gap

/-- No gap. -/
def empty : Gap := ⟨[], false, [], []⟩

/-- The gap behind an escaped line break. -/
def joined : Gap := ⟨[], true, [], []⟩

/-- What stands for a gap in the text. -/
def text (g : Gap) : List Char :=
  if !g.broken then g.blanks
  else if g.first = ['\n'] then if g.later.isEmpty then [' '] else g.later
  else g.first ++ g.later

/-- The gap with one more break. -/
def addBreak (g : Gap) (b : List Char) : Gap :=
  if g.broken then { g with later := g.later ++ b } else { g with blanks := [], broken := true, first := b }

/-- Read the rest of a gap. A tab behind a break and in front of column `least` is an error. -/
def read (least : Nat) : Nat → Gap → Place → Option (Gap × Place)
  | 0, g, p => some (g, p)
  | fuel + 1, g, p =>
    match p.rest with
    | [] => some (g, p)
    | c :: _ =>
      if isBlank c then
        if c = '\t' && g.broken && p.column < least then none
        else read least fuel (if g.broken then g else { g with blanks := g.blanks ++ [c] }) p.step
      else if isBreak c then
        let (b, p) := p.readBreak
        read least fuel (g.addBreak b) p
      else some (g, p)

end Gap

end CliffordT.Yaml
