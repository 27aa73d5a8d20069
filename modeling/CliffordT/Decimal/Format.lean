import CliffordT.Decimal.Digits

/-!
# Texts of doubles

A style says when the exponent is written out, with how many digits, and how the numbers that are not finite are
spelled. Each place that writes numbers has its style: log values and messages (`general`), YAML files (`yaml`), JSON
files (`json`), settings (`plain`). Besides there are texts with a fixed number of places or of significant digits.
-/

namespace CliffordT.Decimal

open CliffordT.Numeric

/-- How doubles are written with their shortest digits. -/
structure Style where
  /-- the least leading power of ten that is written without an exponent -/
  least : Int
  /-- the least leading power of ten above it that is written with an exponent -/
  beyond : Int
  /-- the least number of digits of an exponent -/
  exponentDigits : Nat
  nan : String
  infinite : String
  minusInfinite : String

namespace Style

/-- Messages, log values and metrics: powers from `10⁻⁴` below `10⁶` are plain. -/
def general : Style := ⟨-4, 6, 2, "NaN", "+Inf", "-Inf"⟩

/-- YAML numbers are those of messages, with the spellings of that format. -/
def yaml : Style := ⟨-4, 6, 2, ".nan", ".inf", "-.inf"⟩

/-- JSON numbers are plain from `10⁻⁶` below `10²¹`. -/
def json : Style := ⟨-6, 21, 1, "NaN", "+Inf", "-Inf"⟩

/-- Numbers that become texts have no exponent. -/
def plain : Style := ⟨-1000, 1000, 1, "NaN", "+Inf", "-Inf"⟩

end Style

/-- A list of `n` zeros. -/
def zeros (n : Nat) : List Char := List.replicate n '0'

/-- At least `width` digits. -/
def padded (width n : Nat) : List Char :=
  let ds := Nat.toDigits 10 n
  zeros (width - ds.length) ++ ds

/-- An exponent with its sign. -/
def exponentText (width : Nat) (x : Int) : List Char :=
  'e' :: (if x < 0 then '-' else '+') :: padded width x.natAbs

/-- A number without an exponent. -/
def plainText (s : Scaled) : List Char :=
  let ds := s.text
  if 0 ≤ s.exponent then ds ++ zeros s.exponent.toNat
  else
    let k := (-s.exponent).toNat
    if k < ds.length then ds.take (ds.length - k) ++ '.' :: ds.drop (ds.length - k)
    else '0' :: '.' :: (zeros (k - ds.length) ++ ds)

/-- A number with one digit before the point and an exponent. -/
def scientificText (width : Nat) (s : Scaled) : List Char :=
  let tail := exponentText width s.magnitude
  match s.text with
  | [] => tail
  | [c] => c :: tail
  | c :: ds => c :: '.' :: (ds ++ tail)

/-- The digits of a positive number in a style. -/
def Style.digits (style : Style) (s : Scaled) : List Char :=
  let x := s.magnitude
  if x < style.least ∨ style.beyond ≤ x then scientificText style.exponentDigits s else plainText s

/-- The sign that is written: a minus for a set sign bit, a plus only if it is asked for. -/
def signText (negative plus : Bool) : List Char :=
  if negative then ['-'] else if plus then ['+'] else []

/-- A number that is not finite, or the text of its magnitude behind its sign. -/
def Style.signed (style : Style) (plus : Bool) (x : Float) (magnitude : Parts → List Char) : String :=
  if x.isNaN then (if plus then "+" ++ style.nan else style.nan)
  else if x.isInf then (if signBit x then style.minusInfinite else style.infinite)
  else
    let d := Parts.ofFloat x
    String.ofList (signText d.negative plus ++ magnitude d)

/-- The shortest text of a number in a style, with a plus sign if it is asked for. -/
def Style.writeSigned (style : Style) (plus : Bool) (x : Float) : String :=
  style.signed plus x fun d =>
    if d.mantissa = 0 then ['0'] else style.digits (shortest d.mantissa d.exponent)

/-- The shortest text of a number in a style. -/
def Style.write (style : Style) (x : Float) : String := style.writeSigned false x

/-- A number with a fixed number of places, rounded to nearest and a tie to even, with a plus sign if it is asked
for. -/
def fixedSigned (count : Nat) (plus : Bool) (x : Float) : String :=
  Style.general.signed plus x fun d =>
    let n := places d.mantissa d.exponent count
    let ds := padded (count + 1) n
    if count = 0 then ds else ds.take (ds.length - count) ++ '.' :: ds.drop (ds.length - count)

/-- A number with a fixed number of places, rounded to nearest and a tie to even. -/
def fixed (count : Nat) (x : Float) : String := fixedSigned count false x

/-- A number with so many significant digits at most, without trailing zeros. -/
def rounded (count : Nat) (x : Float) : String :=
  Style.general.signed false x fun d =>
    if d.mantissa = 0 then ['0']
    else Style.digits { Style.general with beyond := count } (significant d.mantissa d.exponent count)

end CliffordT.Decimal
