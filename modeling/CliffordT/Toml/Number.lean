import CliffordT.Decimal.Read
import CliffordT.Toml.Basic

/-!
# Numbers in TOML

Integers are of 64 bits, in decimal digits with a sign or in the bases 16, 8 and 2 without one; floats have a point or
an exponent. Underscores stand between digits, and no zero stands in front of other digits.
-/

namespace CliffordT.Toml

/-- Every character of a text with those around it; a blank stands for none. -/
def around (cs : List Char) : List (Char × Char × Char) := (' ' :: cs).zip (cs.zip (cs.drop 1 ++ [' ']))

/-- Without a sign at the front. -/
def dropSign (cs : List Char) : List Char := (Decimal.splitSign cs).2

/-- Whether a decimal number has a needless zero in front. -/
def hasLeadingZero (cs : List Char) : Bool :=
  match dropSign cs with
  | '0' :: c :: _ => c.isDigit
  | _ => false

/-- An integer in a base; nothing if it is malformed or needs more than 64 bits. -/
def integer? (base : Nat) (cs : List Char) : Option Value :=
  let digits := dropSign cs
  if (around digits).any (fun (a, c, b) => c = '_' && (a = ' ' || a = '_' || b = ' ')) then none
  else
    let plain := cs.filter (· ≠ '_')
    if base = 10 && hasLeadingZero plain then none
    else
      match Decimal.readIntBase base (String.ofList plain) with
      | .ok n => some (.int n)
      | .error _ => none

/-- Whether the underscores of a float stand where they may: behind a digit, and not beside a point, an exponent's
letter, another underscore or an end. -/
def underscoresStand (cs : List Char) : Bool :=
  (around cs).all fun (a, c, b) => c ≠ '_' || (a.isDigit && ['_', '.', 'e', 'E', ' '].all (· ≠ b))

/-- Whether a point stands between digits and occurs once at most. -/
def pointFits (cs : List Char) : Bool :=
  cs.count '.' ≤ 1 && (around cs).all fun (a, c, b) => c ≠ '.' || (a.isDigit && b.isDigit)

/-- A float; nothing if it is malformed or out of range. -/
def float? (cs : List Char) : Option Value :=
  if String.ofList (dropSign cs) = "nan" then some (.float Numeric.nan)
  else
    let plain := cs.filter (· ≠ '_')
    if !underscoresStand cs || !pointFits plain || hasLeadingZero plain then none
    else
      match Decimal.readFloat (String.ofList plain) with
      | .ok x => some (.float x)
      | .error _ => none

/-- The base that a letter behind a zero names. -/
def base? (c : Char) : Option Nat :=
  if c = 'x' then some 16 else if c = 'o' then some 8 else if c = 'b' then some 2 else none

/-- Whether a character is a digit of a base or an underscore. -/
def isDigitOf (base : Nat) (c : Char) : Bool :=
  c = '_' || (match Decimal.digitValue? c with | some d => d < base | none => false)

/-- Whether a character may stand in a decimal number. -/
def isNumeral (c : Char) : Bool := c.isDigit || ['+', '-', '_', '.', 'e', 'E'].contains c

/-- A number in decimal digits and what follows it. -/
def readDecimal (cs : List Char) : Option (Value × List Char) :=
  let written := cs.takeWhile isNumeral
  let rest := cs.drop written.length
  let word := rest.take 3
  if rest.head? = some 'i' ∨ rest.head? = some 'n' then
    if word = "inf".toList ∨ word = "nan".toList then (float? (written ++ word)).map fun v => (v, rest.drop 3) else none
  else
    let isFloat := written.any fun c => c = '.' || c = 'e' || c = 'E'
    (if isFloat then float? written else integer? 10 written).map fun v => (v, rest)

/-- A number and what follows it. A zero in front of anything but a point or an exponent stands for itself. -/
def readNumber (cs : List Char) : Option (Value × List Char) :=
  match cs with
  | '0' :: c :: rest =>
    match base? c with
    | some base =>
      let digits := rest.takeWhile (isDigitOf base)
      (integer? base digits).map fun v => (v, rest.drop digits.length)
    | none => if c = '.' ∨ c = 'e' ∨ c = 'E' then readDecimal cs else some (.int 0, c :: rest)
  | cs => readDecimal cs

end CliffordT.Toml
