import CliffordT.Toml.Basic

/-!
# Dates and times in TOML

A date is `YYYY-MM-DD` and a time of day `HH:MM:SS` with an optional fraction. Both together, with a `T` or a space
between them, may end with a zone: `Z` or an offset in hours and minutes.
-/

namespace CliffordT.Toml

/-- The value of a number of decimal digits at the front, and what follows them. -/
def digits? (count : Nat) (cs : List Char) : Option (Nat × List Char) :=
  let ds := cs.take count
  if ds.length = count && ds.all Char.isDigit then
    some (ds.foldl (fun n c => n * 10 + (c.toNat - 48)) 0, cs.drop count)
  else none

/-- What follows a given character. -/
def after? (c : Char) : List Char → Option (List Char)
  | [] => none
  | d :: cs => if c = d then some cs else none

/-- A date and what follows it. -/
def readDate? (cs : List Char) : Option (Date × List Char) := do
  let (year, cs) ← digits? 4 cs
  let (month, cs) ← digits? 2 (← after? '-' cs)
  let (day, cs) ← digits? 2 (← after? '-' cs)
  let date : Date := ⟨year, month, day⟩
  if date.isValid then some (date, cs) else none

/-- A time of day and what follows it. -/
def readClock? (cs : List Char) : Option (Clock × List Char) := do
  let (hour, cs) ← digits? 2 cs
  let (minute, cs) ← digits? 2 (← after? ':' cs)
  let (second, cs) ← digits? 2 (← after? ':' cs)
  if 23 < hour || 59 < minute || 60 < second then none
  else
    match cs with
    | '.' :: rest =>
      let fraction := rest.takeWhile Char.isDigit
      if fraction.isEmpty then none else some (⟨hour, minute, second, fraction⟩, rest.drop fraction.length)
    | cs => some (⟨hour, minute, second, []⟩, cs)

/-- How many minutes a zone is ahead. -/
def zone? : List Char → Option Int
  | [] => none
  | c :: cs =>
    if c = 'Z' ∨ c = 'z' then if cs.isEmpty then some 0 else none
    else if c = '+' ∨ c = '-' then do
      let (hours, cs) ← digits? 2 cs
      let (minutes, cs) ← digits? 2 (← after? ':' cs)
      let ahead : Int := (hours * 60 + minutes : Nat)
      if 23 < hours || 59 < minutes || !cs.isEmpty then none else some (if c = '-' then -ahead else ahead)
    else none

/-- The time that a whole text is. -/
def time? (cs : List Char) : Option Time :=
  match readDate? cs with
  | none =>
    match readClock? cs with
    | some (clock, []) => some (.clock clock)
    | _ => none
  | some (date, []) => some (.date date)
  | some (date, c :: cs) =>
    if c = 'T' || c = 't' || c = ' ' then
      match readClock? cs with
      | none => none
      | some (clock, []) => some (.both date clock)
      | some (clock, rest) => (zone? rest).map fun ahead => .moment ⟨date, clock, ahead⟩
    else none

/-- Whether a text starts like a date or a time of day. -/
def startsTime (cs : List Char) : Bool :=
  let digits := ((cs.take 5).takeWhile Char.isDigit).length
  (digits = 4 && (cs.drop 4).head? = some '-') || (digits = 2 && (cs.drop 2).head? = some ':')

/-- The characters at the front that belong to a date or a time: digits and marks, and one space in front of a digit. -/
def timeText : Bool → List Char → List Char
  | _, [] => []
  | spaced, c :: cs =>
    if c.isDigit || ['-', 'T', 't', ':', '.', '+', 'Z', 'z'].contains c then c :: timeText spaced cs
    else if c = ' ' && !spaced && (cs.head?.map Char.isDigit).getD false then c :: timeText true cs
    else []

/-- A date or a time and what follows it. -/
def readTime (cs : List Char) : Option (Value × List Char) :=
  let written := timeText false cs
  (time? written).map fun t => (.time t, cs.drop written.length)

end CliffordT.Toml
