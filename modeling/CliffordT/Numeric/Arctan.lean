import CliffordT.Numeric.Binary64

/-!
# Arctangent and magnitude

The arctangent is a rational approximation near zero, extended to the half line by `atan x = π/4 + atan ((x-1)/(x+1))`
and `atan x = π/2 - atan (1/x)`. Every operation is one rounded double operation in the order written, so the
argument of a complex number is determined to the last bit.
-/

namespace CliffordT.Numeric

/-- The double nearest to π. -/
def pi : Float := 3.141592653589793

/-- The double nearest to 2π. -/
def twoPi : Float := 6.283185307179586

/-- The double nearest to 3π/4. -/
def threeQuarterPi : Float := 2.356194490192345

/-- What the double nearest to π/2 lacks. -/
def halfPiRest : Float := 6.123233995736765886130e-17

/-- The arctangent of a number between 0 and 0.66. -/
def atanCore (x : Float) : Float :=
  let z := x * x
  let p := (((-8.750608600031904122785e-01 * z + -1.615753718733365076637e+01) * z
    + -7.500855792314704667340e+01) * z + -1.228866684490136173410e+02) * z + -6.485021904942025371773e+01
  let q := ((((z + 2.485846490142306297962e+01) * z + 1.650270098316988542046e+02) * z
    + 4.328810604912902668951e+02) * z + 4.853903996359136964868e+02) * z + 1.945506571482613964425e+02
  let z := z * p / q
  x * z + x

/-- The arctangent of a positive number. -/
def atanPositive (x : Float) : Float :=
  if x ≤ 0.66 then atanCore x
  else if x > 2.41421356237309504880 then pi / 2 - atanCore (1 / x) + halfPiRest
  else pi / 4 + atanCore ((x - 1) / (x + 1)) + 0.5 * halfPiRest

/-- The arctangent. The sign of a zero is kept. -/
def atan (x : Float) : Float :=
  if x == 0 then x
  else if x > 0 then atanPositive x
  else -(atanPositive (-x))

/-- The angle of the point `(x, y)`, between `-π` and `π`. -/
def angleOf (y x : Float) : Float :=
  if y.isNaN || x.isNaN then nan
  else if y == 0 then
    if x ≥ 0 && !signBit x then copySign 0 y else copySign pi y
  else if x == 0 then copySign (pi / 2) y
  else if x.isInf then
    if !signBit x then (if y.isInf then copySign (pi / 4) y else copySign 0 y)
    else if y.isInf then copySign threeQuarterPi y else copySign pi y
  else if y.isInf then copySign (pi / 2) y
  else
    let q := atan (y / x)
    if x < 0 then (if q ≤ 0 then q + pi else q - pi) else q

/-- The length of the vector `(x, y)`. It is infinite if a coordinate is, even beside one that is not a number. -/
def magnitude (x y : Float) : Float :=
  if x.isInf || y.isInf then infinity
  else if x.isNaN || y.isNaN then nan
  else
    let a := x.abs
    let b := y.abs
    let p := if a < b then b else a
    let q := if a < b then a else b
    if p == 0 then 0
    else
      let r := q / p
      p * Float.sqrt (1 + r * r)

/-- The larger of two numbers. Infinity wins over everything, then not-a-number, and `0` is larger than `-0`. -/
def larger (x y : Float) : Float :=
  if x == infinity || y == infinity then infinity
  else if x.isNaN || y.isNaN then nan
  else if x == 0 && y == 0 then (if signBit x then y else x)
  else if x > y then x else y

end CliffordT.Numeric
