import CliffordT.Word.Simplify

/-!
# Blocks

Searched words are made of blocks of two gates: a basis change, then an eighth of a turn forwards or backwards. A
block is held by its code. Codes 0 and 1 are the two blocks; of any other code the word is that of block 0, while the
number of a block list reads the lowest bit of the code.
-/

namespace CliffordT

/-- A block of two gates, by its code. -/
structure Block where
  /-- 0 turns forwards, 1 backwards -/
  code : UInt8
deriving DecidableEq, Repr

namespace Block

/-- Basis change, then an eighth of a turn. -/
def forward : Block := ⟨0⟩

/-- Basis change, then an eighth of a turn backwards. -/
def backward : Block := ⟨1⟩

/-- The lowest bit of the code. -/
def bit (b : Block) : Bool := b.code.toNat % 2 = 1

/-- The block of a bit. -/
def ofBit (bit : Bool) : Block := if bit then backward else forward

@[simp] theorem bit_ofBit (bit : Bool) : (ofBit bit).bit = bit := by
  cases bit <;> rfl

/-- The two gates of a block. -/
def word (b : Block) : Word :=
  if b = backward then [Gate.byte .h, Gate.byte .tInv] else [Gate.byte .h, Gate.byte .t]

end Block

/-- The word of several block lists, one after the other, with pairs of basis changes cancelled. -/
def Word.ofBlocks (lists : List (List Block)) : Word :=
  Word.simplify (lists.flatMap fun blocks => blocks.flatMap Block.word)

end CliffordT
