import CliffordT.Matrix.Block
import CliffordT.Matrix.Precision
import CliffordT.Numeric.Phase

/-!
# Matrices of complex doubles

The arithmetic that runs: entries are complex numbers with double parts. A product of two complex numbers is the
schoolbook formula with one rounding per operation. A stored matrix keeps its doubles or is rounded part by part to
single precision.
-/

namespace CliffordT

/-- A complex number with double parts. -/
structure Amplitude where
  re : Float
  im : Float

namespace Amplitude

instance : Zero Amplitude := ⟨⟨0, 0⟩⟩

instance : One Amplitude := ⟨⟨1, 0⟩⟩

instance : Add Amplitude := ⟨fun x y => ⟨x.re + y.re, x.im + y.im⟩⟩

instance : Sub Amplitude := ⟨fun x y => ⟨x.re - y.re, x.im - y.im⟩⟩

instance : Mul Amplitude := ⟨fun x y => ⟨x.re * y.re - x.im * y.im, x.re * y.im + x.im * y.re⟩⟩

/-- The double nearest to `1/√2`. -/
def halfRoot : Float := Float.ofBits 0x3fe6a09e667f3bcd

/-- The double just below, which is the sine of an eighth of a turn. -/
def halfRootBelow : Float := Float.ofBits 0x3fe6a09e667f3bcc

/-- The amplitude of `k` eighths of a turn. -/
def turn (k : Nat) : Amplitude :=
  match k % 8 with
  | 1 => ⟨halfRoot, halfRootBelow⟩
  | 2 => ⟨0, 1⟩
  | 3 => ⟨-halfRootBelow, halfRoot⟩
  | 4 => ⟨-1, 0⟩
  | 5 => ⟨-halfRoot, -halfRootBelow⟩
  | 6 => ⟨0, -1⟩
  | 7 => ⟨halfRoot, -halfRootBelow⟩
  | _ => 1

instance : GateNumbers Amplitude where
  halfRoot := ⟨halfRoot, 0⟩
  negHalfRoot := ⟨-halfRoot, 0⟩
  turn := turn

/-- The complex conjugate. -/
def conj (x : Amplitude) : Amplitude := ⟨x.re, -x.im⟩

/-- The absolute value. -/
def abs (x : Amplitude) : Float := Numeric.magnitude x.re x.im

/-- The angle of a number, between `-π` and `π`. -/
def arg (x : Amplitude) : Float := Numeric.angleOf x.im x.re

/-- Both parts rounded to single precision. -/
def narrow (x : Amplitude) : Amplitude := ⟨Numeric.narrow x.re, Numeric.narrow x.im⟩

end Amplitude

/-- A matrix of complex doubles. -/
abbrev Matrix := Mat Amplitude

namespace Mat

/-- The conjugate transpose. -/
def adjoint (m : Matrix) : Matrix := ⟨m.a.conj, m.c.conj, m.b.conj, m.d.conj⟩

/-- The larger absolute value off the diagonal. -/
def offDiagonal (m : Matrix) : Float := Numeric.larger m.b.abs m.c.abs

/-- Whether both entries off the diagonal are smaller than `eps`. -/
def isDiagonal (eps : Float) (m : Matrix) : Bool := m.b.abs < eps && m.c.abs < eps

/-- The angle by which a diagonal matrix turns, up to a common phase. -/
def relativePhase (m : Matrix) : Float := Numeric.normalize (m.d.arg - m.a.arg)

/-- Whether no entry differs by `eps` or more. -/
def approxEqual (eps : Float) (m n : Matrix) : Bool :=
  (m.entries.zip n.entries).all fun (x, y) => !(decide ((x - y).abs ≥ eps))

/-- Every entry rounded to single precision. -/
def narrow (m : Matrix) : Matrix := m.map Amplitude.narrow

/-- The entry at a position counted row by row, two to a row, in 64-bit arithmetic; nothing outside the matrix. -/
def at? (m : Matrix) (row col : Int) : Option Amplitude :=
  let k := (row * 2 + col).bmod 0x10000000000000000
  if 0 ≤ k then m.entries[k.toNat]? else none

end Mat

end CliffordT
