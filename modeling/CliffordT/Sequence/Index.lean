import CliffordT.Sequence.Block

/-!
# Numbering block lists

The nonempty block lists are numbered by length first and then by bit pattern, so that `2 ^ n - 2` is the number of
the first list of `n` blocks. Number `i` has `blockCount i` blocks, and its offset from the first list of that length,
written with that many bits, is the list itself, first block first. The last block is the lowest bit of `i`, and
without it the list has number `i / 2 - 1`: every number is reached from a smaller one by one block.
-/

namespace CliffordT.Index

/-- The first number with `n` blocks. -/
def start (n : Nat) : Nat := Nat.pow 2 n - 2

/-- How many blocks number `i` has. -/
def blockCount (i : Nat) : Nat := Nat.log2 (i + 2)

/-- The block list of a number, in the order of application. -/
def decode (i : Nat) : List Block :=
  let n := blockCount i
  let offset := i - start n
  (List.range n).map fun j => Block.ofBit (offset.testBit (n - 1 - j))

/-- The last block of a number. -/
def trailing (i : Nat) : Block := Block.ofBit (i % 2 = 1)

/-- The number of the list without its last block; none if that list is empty. -/
def predecessor? (i : Nat) : Option Nat := if i < 2 then none else some (i / 2 - 1)

end CliffordT.Index
