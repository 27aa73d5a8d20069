import CliffordT.Text.Moment

/-!
# Dates and times in YAML

A plain scalar can be a date, or a date and a time of day: year, month and day between dashes, then behind a `T` the
time with a zone, or behind blanks the time without one.
-/

namespace CliffordT.Yaml

/-- A number of one or two digits below a limit. -/
def shortNumber? (limit : Nat) : List Char → Option (Nat × List Char)
  | a :: b :: cs =>
    if a.isDigit && b.isDigit then
      let n := (a.toNat - 48) * 10 + (b.toNat - 48)
      if n < limit then some (n, cs) else none
    else if a.isDigit then some (a.toNat - 48, b :: cs)
    else none
  | [a] => if a.isDigit then some (a.toNat - 48, []) else none
  | [] => none

/-- What follows a character. -/
def after? (c : Char) : List Char → Option (List Char)
  | d :: cs => if c = d then some cs else none
  | [] => none

/-- A date and what follows it. -/
def readDate? (cs : List Char) : Option (Date × List Char) := do
  let digits := cs.takeWhile Char.isDigit
  if digits.length ≠ 4 then none
  else
    let year := digits.foldl (fun n c => n * 10 + (c.toNat - 48)) 0
    let (month, rest) ← shortNumber? 13 (← after? '-' (cs.drop 4))
    let (day, rest) ← shortNumber? 32 (← after? '-' rest)
    let date : Date := ⟨year, month, day⟩
    if date.isValid then some (date, rest) else none

/-- A time of day, with a fraction of a second behind a point or a comma, and what follows it. -/
def readClock? (cs : List Char) : Option (Clock × List Char) := do
  let (hour, rest) ← shortNumber? 24 cs
  let (minute, rest) ← shortNumber? 60 (← after? ':' rest)
  let (second, rest) ← shortNumber? 60 (← after? ':' rest)
  let fraction :=
    match rest with
    | mark :: more => if mark = '.' || mark = ',' then more.takeWhile Char.isDigit else []
    | [] => []
  some (⟨hour, minute, second, fraction⟩, if fraction.isEmpty then rest else rest.drop (fraction.length + 1))

/-- How many minutes a time zone is ahead: `Z`, or a sign, hours and minutes. -/
def zone? : List Char → Option Int
  | ['Z'] => some 0
  | [sign, a, b, ':', c, d] =>
    let hours := (a.toNat - 48) * 10 + (b.toNat - 48)
    let minutes := (c.toNat - 48) * 10 + (d.toNat - 48)
    if [a, b, c, d].all Char.isDigit && hours ≤ 24 && minutes ≤ 60 then
      if sign = '+' then some (hours * 60 + minutes : Nat)
      else if sign = '-' then some (-(hours * 60 + minutes : Nat))
      else none
    else none
  | _ => none

/-- The moment of a text that is a date, or a date and a time. -/
def moment? (s : String) : Option Moment := do
  let (date, rest) ← readDate? s.toList
  match rest with
  | [] => some ⟨date, .midnight, 0⟩
  | c :: rest =>
    if c = 'T' || c = 't' then do
      let (clock, rest) ← readClock? rest
      let ahead ← zone? rest
      some ⟨date, clock, ahead⟩
    else if c = ' ' then do
      let (clock, rest) ← readClock? (rest.dropWhile (· = ' '))
      if rest.isEmpty then some ⟨date, clock, 0⟩ else none
    else none

end CliffordT.Yaml
