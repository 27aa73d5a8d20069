import CliffordT.Decimal.Format
import CliffordT.Decimal.Read
import CliffordT.Text.Quoted

/-!
# Durations

A duration is a number of nanoseconds that fits 64 bits. It is written in hours, minutes and seconds, one of less than
a second in the largest unit that leaves a digit before the point (`Duration.text`), and read as a sum of numbers with
units (`Duration.read`).
-/

namespace CliffordT

/-- A length of time in nanoseconds. -/
structure Duration where
  nanoseconds : Int
deriving DecidableEq, Repr

/-- Why a text is no duration. -/
inductive DurationError where
  | invalid (text : String)
  | missingUnit (text : String)
  | unknownUnit (unit text : String)
deriving DecidableEq, Repr

namespace DurationError

/-- A text between double quotes with every byte outside printable ASCII in hexadecimal; the quote and the backslash
are escaped. -/
def quotedBytes (s : String) : String :=
  let byte (b : UInt8) : List Char :=
    if b.toNat < 32 ∨ 128 ≤ b.toNat then '\\' :: 'x' :: Text.hex 2 b.toNat
    else if b.toNat = 34 ∨ b.toNat = 92 then ['\\', Char.ofNat b.toNat]
    else [Char.ofNat b.toNat]
  String.ofList ('"' :: (s.toUTF8.toList.flatMap byte ++ ['"']))

/-- The wording of a duration error. -/
def message : DurationError → String
  | .invalid s => "time: invalid duration " ++ quotedBytes s
  | .missingUnit s => "time: missing unit in duration " ++ quotedBytes s
  | .unknownUnit u s => "time: unknown unit " ++ quotedBytes u ++ " in duration " ++ quotedBytes s

end DurationError

namespace Duration

open CliffordT.Decimal

/-- The number `n / 10 ^ places` without trailing zeros after the point. -/
def fraction (n places : Nat) : List Char :=
  let s := Scaled.normal ⟨n, -(places : Int)⟩
  if n = 0 then ['0'] else plainText s

/-- The text of a number of nanoseconds. -/
def magnitudeText (n : Nat) : List Char :=
  if n = 0 then ['0', 's']
  else if n < 1000 then fraction n 0 ++ ['n', 's']
  else if n < 1000000 then fraction n 3 ++ ['µ', 's']
  else if n < 1000000000 then fraction n 6 ++ ['m', 's']
  else
    let minutes := n / 60000000000
    let seconds := fraction (n % 60000000000) 9 ++ ['s']
    if minutes = 0 then seconds
    else
      let hours := minutes / 60
      let tail := Nat.toDigits 10 (minutes % 60) ++ 'm' :: seconds
      if hours = 0 then tail else Nat.toDigits 10 hours ++ 'h' :: tail

/-- The text of a duration. -/
def text (d : Duration) : String :=
  String.ofList (signText (d.nanoseconds < 0) false ++ magnitudeText d.nanoseconds.natAbs)

/-- The nearest multiple of a millisecond, a half away from zero, kept within 64 bits. -/
def roundMillisecond (d : Duration) : Duration :=
  let half := (d.nanoseconds.natAbs + 500000) / 1000000 * 1000000
  if d.nanoseconds < 0 then ⟨max (-(half : Int)) (-0x8000000000000000)⟩ else ⟨min half 0x7fffffffffffffff⟩

/-- The nanoseconds of a unit. -/
def unit? (s : String) : Option Nat :=
  if s = "ns" then some 1
  else if s = "us" ∨ s = "µs" ∨ s = "μs" then some 1000
  else if s = "ms" then some 1000000
  else if s = "s" then some 1000000000
  else if s = "m" then some 60000000000
  else if s = "h" then some 3600000000000
  else none

/-- The digits of a fraction that still fit 63 bits, and the power of ten they are counted in. -/
def readFraction (cs : List Char) : Nat × Float :=
  let step : Nat × Float × Bool → Char → Nat × Float × Bool := fun (x, scale, full) c =>
    let y := x * 10 + (c.toNat - 48)
    if full ∨ 0x7fffffffffffffff / 10 < x ∨ 0x8000000000000000 < y then (x, scale, true) else (y, scale * 10, false)
  let (x, scale, _) := cs.foldl step (0, 1, false)
  (x, scale)

/-- The digits behind a point, if one follows, and what follows them. -/
def splitPoint : List Char → List Char × List Char
  | '.' :: tail => (tail.takeWhile Char.isDigit, tail.dropWhile Char.isDigit)
  | cs => ([], cs)

/-- One number with its unit, in nanoseconds, and what follows it. -/
def readTerm (whole : String) (cs : List Char) : Except DurationError (Nat × List Char) :=
  let intDigits := cs.takeWhile Char.isDigit
  let (fracDigits, rest) := splitPoint (cs.dropWhile Char.isDigit)
  let n := intDigits.foldl (fun n c => n * 10 + (c.toNat - 48)) 0
  if (intDigits.isEmpty ∧ fracDigits.isEmpty) ∨ 0x8000000000000000 < n then .error (.invalid whole)
  else
    let isUnit (c : Char) : Bool := !(c = '.' || c.isDigit)
    let name := String.ofList (rest.takeWhile isUnit)
    let rest := rest.dropWhile isUnit
    if name.isEmpty then .error (.missingUnit whole)
    else
      match unit? name with
      | none => .error (.unknownUnit name whole)
      | some u =>
        let (f, scale) := readFraction fracDigits
        let part := if f = 0 then 0 else (Numeric.truncate (Float.ofNat f * (Float.ofNat u / scale))).toNat
        let v := n * u + part
        if 0x8000000000000000 / u < n ∨ 0x8000000000000000 < v then .error (.invalid whole) else .ok (v, rest)

/-- Sum numbers with units until the text ends. Every one takes at least one character. The sum is taken modulo
`2 ^ 64` and may not pass `2 ^ 63` on the way. -/
def readTerms (whole : String) : Nat → Nat → List Char → Except DurationError Nat
  | _, total, [] => .ok total
  | 0, _, _ :: _ => .error (.invalid whole)
  | fuel + 1, total, cs => do
    let (v, rest) ← readTerm whole cs
    let sum := (total + v) % 0x10000000000000000
    if 0x8000000000000000 < sum then .error (.invalid whole) else readTerms whole fuel sum rest

/-- Read a duration. -/
def read (s : String) : Except DurationError Duration := do
  let (negative, rest) := splitSign s.toList
  if rest = ['0'] then return ⟨0⟩
  if rest.isEmpty then .error (.invalid s)
  else
    let n ← readTerms s rest.length 0 rest
    if negative then return ⟨-(n : Int)⟩
    else if n < 0x8000000000000000 then return ⟨n⟩
    else .error (.invalid s)

end Duration

end CliffordT
