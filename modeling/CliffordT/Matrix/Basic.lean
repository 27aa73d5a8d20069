import CliffordT.Word.Basic

/-!
# Gates as two-by-two matrices

Words are given a meaning in any gate algebra: a type with a product, a neutral element and a value for each gate
(`GateAlgebra`). Two-by-two matrices over numbers that contain `1/√2` and the eighth roots of unity are one
(`GateNumbers`). The meaning of a word, `replay`, multiplies the gates from the left, so the first gate of the word is
the rightmost factor; a byte outside the alphabet is an error at its offset.
-/

namespace CliffordT

/-- The matrix with rows `(a, b)` and `(c, d)`. -/
structure Mat (K : Type) where
  a : K
  b : K
  c : K
  d : K
deriving DecidableEq, Repr

namespace Mat

variable {K : Type}

/-- The product of two matrices. -/
@[specialize] def mul [Add K] [Mul K] (m n : Mat K) : Mat K :=
  ⟨m.a * n.a + m.b * n.c, m.a * n.b + m.b * n.d, m.c * n.a + m.d * n.c, m.c * n.b + m.d * n.d⟩

instance [Add K] [Mul K] : Mul (Mat K) := ⟨mul⟩

/-- The matrix with `a` and `d` on the diagonal. -/
def diag [Zero K] (a d : K) : Mat K := ⟨a, 0, 0, d⟩

instance [Zero K] [One K] : One (Mat K) := ⟨diag 1 1⟩

instance [Zero K] : Zero (Mat K) := ⟨diag 0 0⟩

/-- The four entries, row by row. -/
def entries (m : Mat K) : List K := [m.a, m.b, m.c, m.d]

/-- Apply a function to every entry. -/
def map {L : Type} (f : K → L) (m : Mat K) : Mat L := ⟨f m.a, f m.b, f m.c, f m.d⟩

/-- The matrix of applying `m` first and `g` second. -/
def followedBy [Add K] [Mul K] (m g : Mat K) : Mat K := g * m

end Mat

/-- A product of gates: a neutral element, a product and a value for every gate. -/
class GateAlgebra (M : Type) extends One M, Mul M where
  gate : Gate → M

/-- The numbers that gate matrices are made of. -/
class GateNumbers (K : Type) extends Zero K, One K, Add K, Mul K where
  /-- `1/√2` -/
  halfRoot : K
  /-- `-1/√2` -/
  negHalfRoot : K
  /-- the `k`-th power of the first eighth root of unity -/
  turn : Nat → K

namespace GateNumbers

variable {K : Type} [GateNumbers K]

/-- The matrix of a gate. -/
def matrix : Gate → Mat K
  | .h => ⟨halfRoot, halfRoot, halfRoot, negHalfRoot⟩
  | .t => Mat.diag 1 (turn 1)
  | .s => Mat.diag 1 (turn 2)
  | .z => Mat.diag 1 (turn 4)
  | .sInv => Mat.diag 1 (turn 6)
  | .tInv => Mat.diag 1 (turn 7)
  | .x => ⟨0, 1, 1, 0⟩

end GateNumbers

instance {K : Type} [GateNumbers K] : GateAlgebra (Mat K) where
  gate := GateNumbers.matrix

/-- A byte that stands for no gate, and where it was met. -/
structure UnknownGate where
  offset : Nat
  byte : UInt8
deriving DecidableEq, Repr

namespace Word

variable {M : Type} [GateAlgebra M]

/-- Apply the gates of a word after `m`, counting bytes from `offset`. -/
def replayFrom (offset : Nat) (m : M) : Word → Except UnknownGate M
  | [] => .ok m
  | b :: w =>
    match Gate.ofByte? b with
    | some g => replayFrom (offset + 1) (GateAlgebra.gate g * m) w
    | none => .error ⟨offset, b⟩

/-- The value of a word. -/
def replay (w : Word) : Except UnknownGate M := replayFrom 0 1 w

end Word

end CliffordT
