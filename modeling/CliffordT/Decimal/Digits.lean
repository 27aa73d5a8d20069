import CliffordT.Numeric.Binary64

/-!
# Decimal digits of a double

A positive number is written as `digits · 10 ^ exponent`. Three ways to choose the digits of a dyadic number
`m · 2 ^ e` are given, all in exact arithmetic:

* `shortest`: the fewest digits that no other double is nearer to, and of those the nearest to the number;
* `significant`: a given number of leading digits;
* `places`: a given number of digits after the point.

A number lies on the grid of `10 ^ k` between two neighbours, and if any point of the grid rounds back to the number,
one of the two does: so it is enough to look at them.
-/

namespace CliffordT.Decimal

open CliffordT.Numeric

/-- The number `digits · 10 ^ exponent`. -/
structure Scaled where
  digits : Nat
  exponent : Int
deriving DecidableEq, Repr

/-- Drop trailing zeros, at most `fuel` of them. -/
def stripZeros : Nat → Nat → Int → Scaled
  | 0, digits, exponent => ⟨digits, exponent⟩
  | fuel + 1, digits, exponent =>
    if digits ≠ 0 ∧ digits % 10 = 0 then stripZeros fuel (digits / 10) (exponent + 1) else ⟨digits, exponent⟩

namespace Scaled

/-- The same number without trailing zeros. -/
def normal (s : Scaled) : Scaled := stripZeros (Nat.log2 s.digits) s.digits s.exponent

/-- The digits, most significant first. -/
def text (s : Scaled) : List Char := Nat.toDigits 10 s.digits

/-- The power of ten of the leading digit. -/
def magnitude (s : Scaled) : Int := s.exponent + ((s.text.length : Int) - 1)

end Scaled

/-- `2 ^ k` for a natural `k`, and 1 for a negative one. -/
def powTwo (k : Int) : Nat := Nat.pow 2 k.toNat

/-- `10 ^ k` for a natural `k`, and 1 for a negative one. -/
def powTen (k : Int) : Nat := Nat.pow 10 k.toNat

/-- Whether `10 ^ k ≤ m · 2 ^ e`. -/
def reaches (m : Nat) (e k : Int) : Bool := powTen k * powTwo (-e) ≤ m * powTwo e * powTen (-k)

/-- Move `k` up while `10 ^ (k + 1)` is still reached, at most `fuel` times. -/
def climb (m : Nat) (e : Int) : Nat → Int → Int
  | 0, k => k
  | fuel + 1, k => if reaches m e (k + 1) then climb m e fuel (k + 1) else k

/-- The power of ten of the leading digit of `m · 2 ^ e`. The start is below it by at most two, because `log₁₀ 2` lies
between 0.30102 and 0.30103 and exponents are small. -/
def leadingPower (m : Nat) (e : Int) : Int :=
  climb m e 4 (((Nat.log2 m : Int) + e) * 30103 / 100000 - 2)

/-- The number `m · 2 ^ e` in units of `10 ^ k`, as a fraction. -/
def inUnits (m : Nat) (e k : Int) : Nat × Nat := (m * powTwo e * powTen (-k), powTwo (-e) * powTen k)

/-- The digits of `m · 2 ^ e` that stand at `10 ^ k` and above, rounded to nearest. -/
def roundedAt (m : Nat) (e k : Int) : Nat :=
  let (n, d) := inUnits m e k
  roundDiv n d

/-- The number of `digits` leading digits nearest to `m · 2 ^ e`, a tie to even. -/
def significant (m : Nat) (e : Int) (digits : Nat) : Scaled :=
  let k := leadingPower m e - ((digits : Int) - 1)
  Scaled.normal ⟨roundedAt m e k, k⟩

/-- The number of `places` digits after the point nearest to `m · 2 ^ e`, in units of the last place. -/
def places (m : Nat) (e : Int) (places : Nat) : Nat := roundedAt m e (-(places : Int))

/-- The doubles around `m · 2 ^ e` meet it halfway at these two points, in units of `2 ^ (e - 2)`. Below a power of
two the doubles are twice as dense. -/
def halfway (m : Nat) (e : Int) : Nat × Nat :=
  (if m = 0x10000000000000 ∧ -1074 < e then 4 * m - 1 else 4 * m - 2, 4 * m + 2)

/-- The point of the grid of `10 ^ k` that rounds to `m · 2 ^ e`, the nearer one if both neighbours do, the even one
if they are equally near. -/
def gridPoint? (m : Nat) (e k : Int) : Option Nat :=
  let (low, high) := halfway m e
  let (n, d) := inUnits (4 * m) (e - 2) k
  let unit := n / (4 * m)
  let inside (c : Nat) : Bool :=
    if m % 2 = 0 then low * unit ≤ c * d && c * d ≤ high * unit
    else decide (low * unit < c * d) && decide (c * d < high * unit)
  let below := n / d
  let nearest := roundDiv n d
  if inside nearest then some nearest
  else if inside below then some below
  else if inside (below + 1) then some (below + 1)
  else none

/-- The first grid with a point that rounds to `m · 2 ^ e`, from the coarsest, one more digit at a time. -/
def shortestFrom (m : Nat) (e : Int) : Nat → Int → Scaled
  | 0, k => ⟨roundedAt m e k, k⟩
  | fuel + 1, k =>
    match gridPoint? m e k with
    | some c => ⟨c, k⟩
    | none => shortestFrom m e fuel (k - 1)

/-- The fewest digits that read back as `m · 2 ^ e`. Seventeen are always enough. -/
def shortest (m : Nat) (e : Int) : Scaled := Scaled.normal (shortestFrom m e 17 (leadingPower m e))

end CliffordT.Decimal
