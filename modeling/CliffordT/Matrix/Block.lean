import CliffordT.Matrix.Basic
import CliffordT.Sequence.Block

/-!
# Fixed products of gates

The value of a block, the three suffixes that complete a searched word, and the eight corrections that turn a diagonal
matrix by whole eighths.
-/

namespace CliffordT

variable {M : Type} [GateAlgebra M]

/-- The value of a block: the phase gate times the basis change. -/
def Block.matrix (b : Block) : M :=
  GateAlgebra.gate (if b.bit then .tInv else .t) * GateAlgebra.gate .h

/-- A fixed suffix that is tried on every searched word. -/
structure Completion (M : Type) where
  word : Word
  matrix : M

/-- The suffixes in the order in which they are tried: basis change, flip, and both. A searched word ends in a phase
gate after a basis change and is never diagonal by itself. -/
def completions : List (Completion M) :=
  [⟨[Gate.byte .h], GateAlgebra.gate .h⟩,
   ⟨[Gate.byte .x], GateAlgebra.gate .x⟩,
   ⟨[Gate.byte .h, Gate.byte .x], GateAlgebra.gate .x * GateAlgebra.gate .h⟩]

/-- The value of the shortest word worth `k` eighths of a turn. -/
def correction (k : Nat) : M :=
  match Word.replay (Word.phaseRun k) with
  | .ok m => m
  | .error _ => 1

end CliffordT
