/-!
# Binary floating-point numbers, exactly

A finite `Float` is `± m · 2 ^ e` with a natural `m`. Operations that must be exact to the last bit are done on that
form in natural numbers: rounding a dyadic number to the nearest double (`Parts.toFloat`), rounding a double to the
nearest single (`narrow`), the remainder of a division (`remainder`) and the nearest integer (`nearestNat`).
-/

namespace CliffordT.Numeric

/-- The quotient `n / d` rounded to the nearest natural, a half to the even neighbour. -/
def roundDiv (n d : Nat) : Nat :=
  let q := n / d
  let r := n % d
  if d < 2 * r ∨ (d = 2 * r ∧ q % 2 = 1) then q + 1 else q

/-- The number `± mantissa · 2 ^ exponent`. -/
structure Parts where
  negative : Bool
  mantissa : Nat
  exponent : Int
deriving DecidableEq, Repr

/-- Positive infinity. -/
def infinity : Float := Float.ofBits 0x7ff0000000000000

/-- Not a number. -/
def nan : Float := Float.ofBits 0x7ff8000000000000

/-- Whether the sign bit of a number is set; it is for `-0`. -/
def signBit (x : Float) : Bool := x.toBits >>> 63 = 1

/-- The magnitude of the first number with the sign of the second. -/
def copySign (x sign : Float) : Float :=
  Float.ofBits ((x.toBits &&& 0x7fffffffffffffff) ||| (sign.toBits &&& 0x8000000000000000))

namespace Parts

/-- The exact value of a finite number. -/
def ofFloat (x : Float) : Parts :=
  let b := x.toBits
  let e := ((b >>> 52) &&& 0x7ff).toNat
  let f := (b &&& 0xfffffffffffff).toNat
  if e = 0 then ⟨signBit x, f, -1074⟩ else ⟨signBit x, f + 0x10000000000000, (e : Int) - 1075⟩

/-- The mantissa in units of `2 ^ e`, rounded to nearest. -/
def scaled (d : Parts) (e : Int) : Nat :=
  if e ≤ d.exponent then d.mantissa <<< (d.exponent - e).toNat
  else roundDiv d.mantissa (Nat.pow 2 (e - d.exponent).toNat)

/-- The exponent of the last place when `bits` leading bits are kept and no place below `2 ^ low` exists. -/
def lastPlace (d : Parts) (bits : Nat) (low : Int) : Int :=
  max (d.exponent + (Nat.log2 d.mantissa + 1 : Nat) - bits) low

/-- The nearest double, a tie to the even mantissa; infinity beyond the range. -/
def toFloat (d : Parts) : Float :=
  let sign : UInt64 := if d.negative then 0x8000000000000000 else 0
  if d.mantissa = 0 then Float.ofBits sign
  else
    let e := d.lastPlace 53 (-1074)
    let m := d.scaled e
    let (m, e) := if m = 0x20000000000000 then (0x10000000000000, e + 1) else (m, e)
    let field : Int := if m < 0x10000000000000 then 0 else e + 1075
    if 2047 ≤ field then Float.ofBits (sign ||| 0x7ff0000000000000)
    else Float.ofBits (sign ||| (UInt64.ofNat field.toNat <<< 52) ||| UInt64.ofNat (m % 0x10000000000000))

end Parts

/-- The nearest number of 24 bits and single range, a tie to even. Beyond the single range it is infinite, and below
`2 ^ (-126)` the last place is `2 ^ (-149)`. -/
def narrow (x : Float) : Float :=
  if x.isNaN || x.isInf then x
  else
    let d := Parts.ofFloat x
    if d.mantissa = 0 then x
    else
      let e := d.lastPlace 24 (-149)
      if e ≤ d.exponent then x
      else
        let m := d.scaled e
        if 128 ≤ e + Nat.log2 m then copySign infinity x
        else Parts.toFloat ⟨d.negative, m, e⟩

/-- The remainder of a division with the quotient cut off towards zero, exactly. It has the sign of the dividend. -/
def remainder (x y : Float) : Float :=
  if x.isNaN || y.isNaN || x.isInf || y == 0 then nan
  else if y.isInf then x
  else
    let a := Parts.ofFloat x
    let b := Parts.ofFloat y
    let e := min a.exponent b.exponent
    Parts.toFloat ⟨a.negative, a.scaled e % b.scaled e, e⟩

/-- The integer nearest to a finite number that is not negative, a half upwards. -/
def nearestNat (x : Float) : Nat :=
  let d := Parts.ofFloat x
  if 0 ≤ d.exponent then d.mantissa <<< d.exponent.toNat
  else
    let k := (-d.exponent).toNat
    (2 * d.mantissa + Nat.pow 2 k) / Nat.pow 2 (k + 1)

/-- The integer part of a finite number, cut off towards zero. -/
def truncate (x : Float) : Int :=
  let d := Parts.ofFloat x
  let m : Nat :=
    if 0 ≤ d.exponent then d.mantissa <<< d.exponent.toNat else d.mantissa >>> (-d.exponent).toNat
  if d.negative then -(m : Int) else m

/-- The integer part as a 64-bit integer. What does not fit, and what is no number, gives the least one. -/
def truncate64 (x : Float) : Int :=
  let least : Int := -0x8000000000000000
  if !x.isFinite then least
  else
    let n := truncate x
    if least ≤ n ∧ n < 0x8000000000000000 then n else least

end CliffordT.Numeric
