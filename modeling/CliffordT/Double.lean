import CliffordT.Buffer
import CliffordT.Matrix.Complex
import CliffordT.Search.Pass
import CliffordT.Verify

/-!
# The arithmetic of doubles

The instances with which the program runs: complex double matrices, angles in radians and errors as doubles. A matrix
is diagonal within a tolerance, and two angles are too far apart if their distance is at least the tolerance.
-/

namespace CliffordT

open CliffordT.Numeric

instance : Storable Matrix where
  round p m := match p with | .single => m.narrow | .double => m

instance : Angle Float where
  zero := 0
  eighths k := Float.ofNat k * pi / 4
  normalize := normalize
  nearest n φ := nearestNat (φ * Float.ofNat n / twoPi)

instance : Residual Float where
  zero := 0
  widen x := 1.25 * x
  decLt := fun a b => Float.decLt a b

/-- The measurements of a search with a tolerance. -/
def Probe.within (eps : Float) : Probe Matrix Float Float := ⟨Mat.isDiagonal eps, Mat.relativePhase, Mat.offDiagonal⟩

/-- The measurements of a verification with a tolerance. -/
def Verify.Check.within (eps : Float) : Verify.Check Matrix Float Float :=
  { Probe.within eps with far := fun actual expected => distance actual expected ≥ eps }

/-- The tolerance of a search has to be finite and positive. -/
def Search.checkEpsilon (eps : Float) : Except Search.OptionError Float :=
  if eps.isNaN || eps.isInf || eps ≤ 0 then .error .epsilon else .ok eps

/-- The tolerance of a search that is given none. -/
def Search.defaultEpsilon : Float := 1e-3

/-- A candidate in double arithmetic. -/
abbrev DoubleCandidate := Candidate Matrix Float Float

/-- A bucket entry in double arithmetic. -/
abbrev DoubleEntry := Entry Matrix Float Float

/-- A phase table in double arithmetic. -/
abbrev DoubleTable := Table Matrix Float Float

/-- The angle of a slot in degrees. -/
def Table.slotDegrees (t : DoubleTable) (s : Int) : Float := Float.ofInt s * 360 / Float.ofNat t.points

/-- The angles of the missing buckets in degrees. -/
def Table.missingDegrees (t : DoubleTable) : List Float :=
  t.missing.map fun (b : Nat) => t.slotDegrees b

end CliffordT
