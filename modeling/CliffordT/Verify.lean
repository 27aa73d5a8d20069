import CliffordT.Table.Expand

/-!
# Verification by replay

Every word of a table is replayed from its gates alone and compared with what the table says about it: the result has
to be diagonal and to turn by the recorded angle. Verification fails nothing; it reports mismatches.
-/

namespace CliffordT.Verify

variable {M A E : Type}

/-- A probe that also tells whether two angles are too far apart. -/
structure Check (M A E : Type) extends Probe M A E where
  far : A → A → Bool

/-- What is wrong with a word. -/
inductive Reason where
  | replayFailed (e : UnknownGate)
  | notDiagonal
  | phaseMismatch
  /-- the bucket of the slot holds an entry, but the slot holds no word -/
  | missingSlot
  /-- the bucket of the slot is empty, but the slot holds a word -/
  | orphanSlot
deriving DecidableEq, Repr

/-- The wording of a reason. -/
def Reason.message : Reason → String
  | .replayFailed _ => "replay failed"
  | .notDiagonal => "not diagonal"
  | .phaseMismatch => "phase mismatch"
  | .missingSlot => "slot unresolved for a found bucket"
  | .orphanSlot => "slot resolved for a missing bucket"

/-- One word that does not do what the table says. -/
structure Mismatch (A E : Type) where
  bucket : Int
  /-- the slot; none if the bucket itself was checked -/
  slot : Option Nat
  gates : Word
  expected : A
  actual : A
  residual : E
  reason : Reason

/-- What one verification found. -/
structure Report (A E : Type) where
  checked : Nat
  mismatches : List (Mismatch A E)

/-- Whether nothing was wrong. -/
def Report.ok (r : Report A E) : Bool := r.mismatches.isEmpty

section

variable [GateAlgebra M] [Zero A] [Zero E]

/-- Replay a word and compare it with the angle expected of it. -/
def checkWord (c : Check M A E) (bucket : Int) (slot : Option Nat) (gates : Word) (expected : A) :
    Option (Mismatch A E) :=
  match Word.replay (M := M) gates with
  | .error e => some ⟨bucket, slot, gates, expected, 0, 0, .replayFailed e⟩
  | .ok m =>
    let mismatch (reason : Reason) : Mismatch A E :=
      ⟨bucket, slot, gates, expected, c.phase m, c.error m, reason⟩
    if !c.isDiagonal m then some (mismatch .notDiagonal)
    else if c.far (c.phase m) expected then some (mismatch .phaseMismatch)
    else none

/-- Check the entry of every bucket. -/
def canonical (c : Check M A E) (t : Table M A E) : Report A E :=
  let es := t.entries
  ⟨es.length, es.filterMap fun e => checkWord c e.bucket none e.gates e.phase⟩

end

variable [GateAlgebra M] [Angle A] [Zero E]

/-- Check the word of one slot. -/
def checkSlot (c : Check M A E) (t : Table M A E) (s : Nat) (gates : Word) : Option (Mismatch A E) :=
  let b := s % t.phaseCount
  let k := s / t.phaseCount
  match t.entry? b with
  | none => if gates = Table.notFound then none else some ⟨b, some s, gates, 0, 0, 0, .orphanSlot⟩
  | some e =>
    if gates = Table.notFound then some ⟨b, some s, gates, 0, 0, 0, .missingSlot⟩
    else checkWord c b (some s) gates (Angle.advance e.phase k)

/-- Check the words of all slots, which stand in order. -/
def expanded (c : Check M A E) (t : Table M A E) (full : List Word) : Report A E :=
  ⟨full.length, full.zipIdx.filterMap fun (gates, s) => checkSlot c t s gates⟩

end CliffordT.Verify
