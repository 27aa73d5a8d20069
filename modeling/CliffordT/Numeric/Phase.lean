import CliffordT.Numeric.Arctan

/-!
# Angles on the circle, as doubles

Angles are doubles in radians. `normalize` brings an angle into one turn and `distance` is the shorter way round
between two angles.
-/

namespace CliffordT.Numeric

/-- The angle in `[0, 2π)` that differs by whole turns. A tiny negative angle that rounds up to a full turn is 0. -/
def normalize (φ : Float) : Float :=
  let r := remainder φ twoPi
  let r := if r < 0 then r + twoPi else r
  if r ≥ twoPi then 0 else r

/-- How far apart two angles are on the circle, between 0 and π. -/
def distance (a b : Float) : Float :=
  let d := normalize (a - b)
  if d > pi then twoPi - d else d

end CliffordT.Numeric
