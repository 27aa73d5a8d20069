import CliffordT.Text.Utf8

/-!
# Gate words

A gate word lists gates in the order in which they are applied, one byte a gate. The alphabet has seven gates: the
basis change `H`, the phase gates `T`, `S`, `Z` with the inverses `t` and `s`, and the flip `X`. A word may hold any
byte; only a byte of the alphabet stands for a gate (`Gate.ofByte?`).

The phase gates commute and add up: each is a number of eighths of a turn (`eighths?`), and every number of eighths
has one shortest word (`phaseRun`).
-/

namespace CliffordT

/-- A word of gates, one byte each, in the order in which they are applied. -/
abbrev Word := List UInt8

/-- The gates of the alphabet. -/
inductive Gate where
  /-- basis change -/
  | h
  /-- an eighth of a turn -/
  | t
  /-- an eighth of a turn, backwards -/
  | tInv
  /-- a quarter turn -/
  | s
  /-- a quarter turn, backwards -/
  | sInv
  /-- half a turn -/
  | z
  /-- flip -/
  | x
deriving DecidableEq, Repr

namespace Gate

/-- The byte that writes a gate: `H`, `T`, `t`, `S`, `s`, `Z` or `X`. -/
def byte : Gate → UInt8
  | h => 72
  | t => 84
  | tInv => 116
  | s => 83
  | sInv => 115
  | z => 90
  | x => 88

/-- The gate that a byte writes, if it writes one. -/
def ofByte? (b : UInt8) : Option Gate :=
  if b = 72 then some h
  else if b = 84 then some t
  else if b = 116 then some tInv
  else if b = 83 then some s
  else if b = 115 then some sInv
  else if b = 90 then some z
  else if b = 88 then some x
  else none

@[simp] theorem ofByte?_byte (g : Gate) : ofByte? g.byte = some g := by
  cases g <;> rfl

theorem byte_of_ofByte? {b : UInt8} {g : Gate} (h : ofByte? b = some g) : g.byte = b := by
  unfold ofByte? at h
  grind [byte]

end Gate

namespace Word

/-- The phase that a byte adds, in eighths of a turn; nothing for a byte that is no phase gate. -/
def eighths? (b : UInt8) : Option Nat :=
  if b = Gate.byte .t then some 1
  else if b = Gate.byte .s then some 2
  else if b = Gate.byte .z then some 4
  else if b = Gate.byte .sInv then some 6
  else if b = Gate.byte .tInv then some 7
  else none

/-- Whether a byte is a phase gate. -/
def isPhase (b : UInt8) : Bool := (eighths? b).isSome

/-- The phase that a byte adds, taken as none for a byte that is no phase gate. -/
def eighths (b : UInt8) : Nat := (eighths? b).getD 0

/-- The shortest word of phase gates worth `k` eighths of a turn. -/
def phaseRun (k : Nat) : Word :=
  match k % 8 with
  | 1 => [Gate.byte .t]
  | 2 => [Gate.byte .s]
  | 3 => [Gate.byte .s, Gate.byte .t]
  | 4 => [Gate.byte .z]
  | 5 => [Gate.byte .z, Gate.byte .t]
  | 6 => [Gate.byte .sInv]
  | 7 => [Gate.byte .tInv]
  | _ => []

/-- The bytes of a text. -/
def ofText (s : String) : Word := s.toUTF8.toList

/-- The text that a word spells, with the replacement character for every byte that belongs to no character. -/
def text (w : Word) : String := Text.ofBytes w

end Word

end CliffordT
