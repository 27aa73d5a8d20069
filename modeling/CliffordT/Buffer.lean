import CliffordT.Matrix.Block
import CliffordT.Matrix.Precision
import CliffordT.Sequence.Index

/-!
# The matrix buffer

A buffer of depth `d` keeps one matrix for every block list of at most `d` blocks, at the number of the list. Entries
are computed in increasing order, each with one product from an entry before it: the value of the last block times the
entry of the list without that block. An entry is rounded when it is stored, and products are formed from what was
stored.

Filling can be stopped after any entry and continues there when it is taken up again (`fill`). Cells that were never
written hold zero.
-/

namespace CliffordT

/-- How matrices are rounded when they are stored. -/
class Storable (M : Type) extends Zero M where
  round : Precision → M → M

/-- A buffer of matrices, by the numbers of block lists. -/
structure Buffer (M : Type) where
  /-- the largest number of blocks -/
  depth : Nat
  precision : Precision
  /-- the leading cells, as far as any was written -/
  cells : Array M
  /-- how many leading entries were computed -/
  filled : Nat

/-- A depth outside `1 … 30`. -/
structure DepthError where
  depth : Int
deriving DecidableEq, Repr

/-- The wording of a depth error. -/
def DepthError.message (e : DepthError) : String :=
  "matbuf: New(" ++ toString e.depth ++ "): matbuf: depth must be in [1, MaxDepth]"

namespace Buffer

variable {M : Type}

/-- The largest depth that can be asked for. -/
def maxDepth : Nat := 30

/-- A buffer of any depth with nothing written. -/
def empty (depth : Nat) (precision : Precision) : Buffer M := ⟨depth, precision, #[], 0⟩

/-- A new buffer of a depth within the limits. -/
def new (depth : Int) (precision : Precision) : Except DepthError (Buffer M) :=
  if depth < 1 ∨ maxDepth < depth then .error ⟨depth⟩ else .ok (empty depth.toNat precision)

/-- How many entries the buffer has room for. -/
def capacity (b : Buffer M) : Nat := Index.start (b.depth + 1)

/-- Whether every entry was computed. -/
def full (b : Buffer M) : Bool := b.filled = b.capacity

/-- Bytes that the entries take. -/
def bytes (b : Buffer M) : Nat := b.capacity * b.precision.bytes

/-- The first number with as many blocks as the depth. Smaller numbers are shorter lists. -/
def longest (b : Buffer M) : Nat := Index.start b.depth

variable [Storable M]

/-- The matrix in a cell. -/
def entry (b : Buffer M) (i : Nat) : M := b.cells.getD i 0

/-- The matrix in a cell, if the buffer has that cell. -/
def get? (b : Buffer M) (i : Int) : Option M :=
  if 0 ≤ i ∧ i < b.capacity then some (b.entry i.toNat) else none

/-- Store a matrix in a cell. -/
def put (b : Buffer M) (i : Nat) (m : M) : Buffer M :=
  let cells := b.cells ++ Array.replicate (i + 1 - b.cells.size) 0
  { b with cells := cells.setIfInBounds i (Storable.round b.precision m) }

/-- Store a matrix in a cell, if the buffer has that cell. -/
def set? (b : Buffer M) (i : Int) (m : M) : Option (Buffer M) :=
  if 0 ≤ i ∧ i < b.capacity then some (b.put i.toNat m) else none

variable [GateAlgebra M]

/-- The product that makes entry `i`. -/
def product (b : Buffer M) (i : Nat) : M :=
  (Index.trailing i).matrix * (match Index.predecessor? i with | some p => b.entry p | none => 1)

/-- Compute and store the next entry. -/
def step (b : Buffer M) : Buffer M :=
  let next := b.put b.filled (b.product b.filled)
  { next with filled := next.filled + 1 }

/-- Compute at most `n` entries. After each, `visit` is told its number and stored value, and may stop the filling. -/
@[specialize] def fillFrom {σ : Type} (visit : σ → Nat → M → σ × Bool) :
    Nat → Buffer M → σ → Buffer M × σ × Bool
  | 0, b, s => (b, s, false)
  | n + 1, b, s =>
    let i := b.filled
    let b := b.step
    let (s, stop) := visit s i (b.entry i)
    if stop then (b, s, true) else fillFrom visit n b s

/-- Compute the missing entries in order until `visit` stops. The last component says whether it did. -/
@[specialize] def fill {σ : Type} (visit : σ → Nat → M → σ × Bool) (b : Buffer M) (s : σ) : Buffer M × σ × Bool :=
  fillFrom visit (b.capacity - b.filled) b s

/-- Compute all missing entries. -/
def fillAll (b : Buffer M) : Buffer M := (b.fill (fun _ _ _ => ((), false)) ()).1

end Buffer

end CliffordT
