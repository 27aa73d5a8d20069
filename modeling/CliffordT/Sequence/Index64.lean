import CliffordT.Sequence.Index

/-!
# Block lists numbered by machine integers

The numbering of block lists in 64-bit two's complement arithmetic, which wraps around. A negative integer numbers no
list, and asking for its blocks is an error. Within `0 … 2 ^ 63 - 3` these functions agree with the numbering by
naturals.
-/

namespace CliffordT.Index64

/-- Why an integer has no block list. -/
inductive IndexError where
  /-- the integer is negative -/
  | negative
deriving DecidableEq, Repr

/-- The wording of an index error. -/
def IndexError.message : IndexError → String
  | .negative => "sequence: negative index"

/-- `2 ^ n`, which is 0 if the bit is shifted out; a negative `n` shifts it out too. -/
def bitAt (n : Int64) : Int64 :=
  if 0 ≤ n ∧ n < 64 then (1 : Int64) <<< n else 0

/-- The first integer with `n` blocks. -/
def start (n : Int64) : Int64 := bitAt n - 2

/-- How many blocks an integer has. -/
def blockCount (i : Int64) : Except IndexError Nat :=
  if i < 0 then .error .negative else .ok (Nat.log2 (i.toUInt64 + 2).toNat)

/-- The last block of an integer. -/
def trailing (i : Int64) : Except IndexError Block :=
  if i < 0 then .error .negative else .ok (Block.ofBit (i &&& 1 = 1))

/-- The integer of the list without its last block, `-1` if that list is empty. -/
def predecessor (i : Int64) : Except IndexError Int64 :=
  if i < 0 then .error .negative else .ok (((i + 2) >>> 1) - 2)

/-- The block list of an integer, in the order of application. -/
def decode (i : Int64) : Except IndexError (List Block) := do
  let n ← blockCount i
  let offset := i - start (Int64.ofNat n)
  return (List.range n).map fun j => Block.ofBit ((offset >>> Int64.ofNat (n - 1 - j)) &&& 1 = 1)

/-- The integer of a block list, `-1` for the empty one. -/
def encode (blocks : List Block) : Int64 :=
  if blocks.isEmpty then -1
  else
    start (Int64.ofNat blocks.length) +
      blocks.foldl (fun (offset : Int64) b => (offset <<< 1) ||| (if b.bit then 1 else 0)) 0

end CliffordT.Index64
