import CliffordT.Search.Candidate
import CliffordT.Word.Fold

/-!
# The phase table

A circle of `points` slots is cut into eight sectors of `points / 8` slots. Only the first sector, the buckets, is
filled: a candidate for slot `b` of sector `k` becomes one for bucket `b` when the correction that completes `k`
eighths to a full turn is appended. Each bucket keeps one entry. The first one stays unless a later one has an error
smaller by more than a fifth: an entry is replaced when its error exceeds five quarters of the new one.

Angles and errors are left open, so that the table can be run with doubles and reasoned about with exact angles.
-/

namespace CliffordT

/-- Angles that can be added, brought into one turn and rounded to slots of the circle. -/
class Angle (A : Type) extends Zero A, Add A where
  /-- `k` eighths of a turn -/
  eighths : Nat → A
  /-- the same direction within one turn -/
  normalize : A → A
  /-- the nearest multiple of the `n`-th part of a turn, for an angle within one turn -/
  nearest : Nat → A → Nat

/-- The angle turned on by `k` eighths. -/
def Angle.advance {A : Type} [Angle A] (φ : A) (k : Nat) : A := normalize (φ + eighths k)

/-- The slot of an angle on a circle of `points` slots. -/
def Angle.slot {A : Type} [Angle A] (points : Nat) (φ : A) : Nat := nearest points (normalize φ) % points

/-- Errors of which five quarters can be formed. -/
class Residual (E : Type) extends Zero E, LT E where
  widen : E → E
  decLt : DecidableLT E

instance Residual.decidableLT {E : Type} [Residual E] : DecidableLT E := Residual.decLt

/-- The word kept for a bucket. -/
structure Entry (M A E : Type) where
  bucket : Int
  phase : A
  gates : Word
  matrix : M
  error : E

/-- The buckets of a circle, and what happened to the candidates offered. -/
structure Table (M A E : Type) where
  /-- slots on the whole circle -/
  points : Nat
  buckets : Array (Option (Entry M A E))
  /-- buckets that hold an entry -/
  found : Nat
  /-- candidates offered -/
  candidates : Nat
  /-- entries replaced by a better one -/
  replacements : Nat
  /-- entries that lost against the one kept -/
  rejected : Nat

/-- Why there is no such table. -/
inductive TableError where
  | notPositive (points : Int)
  | notMultiple (points : Int)
  | bucketOutOfRange (bucket : Int)
deriving DecidableEq, Repr

/-- The wording of a table error. -/
def TableError.message : TableError → String
  | .notPositive n => "phasetable: New(" ++ toString n ++ "): phasetable: points must be > 0"
  | .notMultiple n => "phasetable: New(" ++ toString n ++ "): phasetable: points must be divisible by 8"
  | .bucketOutOfRange b => "phasetable: FromEntries bucket " ++ toString b ++ ": phasetable: bucket out of range"

namespace Table

variable {M A E : Type}

/-- What a slot without a word holds. It spells `NOT_FOUND`. -/
def notFound : Word := [78, 79, 84, 95, 70, 79, 85, 78, 68]

/-- How many buckets the table has. -/
def phaseCount (t : Table M A E) : Nat := t.points / 8

/-- A table of so many slots with empty buckets. -/
def empty (points : Nat) : Table M A E := ⟨points, Array.replicate (points / 8) none, 0, 0, 0, 0⟩

/-- A new table. The number of slots has to be a positive multiple of 8. -/
def new (points : Int) : Except TableError (Table M A E) :=
  if points ≤ 0 then .error (.notPositive points)
  else if points.tmod 8 ≠ 0 then .error (.notMultiple points)
  else .ok (empty points.toNat)

/-- Whether every bucket holds an entry. -/
def complete (t : Table M A E) : Bool := t.found = t.phaseCount

/-- The entry of a bucket. -/
def entry? (t : Table M A E) (b : Nat) : Option (Entry M A E) := t.buckets[b]?.join

/-- The entries in the order of their buckets. -/
def entries (t : Table M A E) : List (Entry M A E) := t.buckets.toList.filterMap id

/-- The buckets without an entry, in increasing order. -/
def missing (t : Table M A E) : List Nat :=
  (List.range t.phaseCount).filter fun b => (t.entry? b).isNone

/-- Keep an entry if its bucket is empty or holds one that exceeds five quarters of its error. -/
def accept [Residual E] (t : Table M A E) (e : Entry M A E) : Table M A E :=
  let b := e.bucket.toNat
  match t.buckets[b]? with
  | none => t
  | some none => { t with buckets := t.buckets.setIfInBounds b (some e), found := t.found + 1 }
  | some (some old) =>
    if Residual.widen e.error < old.error then
      { t with buckets := t.buckets.setIfInBounds b (some e), replacements := t.replacements + 1 }
    else { t with rejected := t.rejected + 1 }

/-- Accept entries in turn, up to the first whose bucket does not exist. -/
def acceptAll [Residual E] (t : Table M A E) : List (Entry M A E) → Except TableError (Table M A E)
  | [] => .ok t
  | e :: es =>
    if e.bucket < 0 ∨ t.phaseCount ≤ e.bucket then .error (.bucketOutOfRange e.bucket)
    else acceptAll (t.accept e) es

/-- A new table with the given entries. -/
def ofEntries [Residual E] (points : Int) (es : List (Entry M A E)) : Except TableError (Table M A E) := do
  acceptAll (← new points) es

/-- The bucket entry that a candidate makes. One outside the first sector is turned back into it. -/
def entryOf [GateAlgebra M] [Angle A] (t : Table M A E) (c : Candidate M A E) : Entry M A E :=
  let slot := Angle.slot t.points c.phase
  let bucket := slot % t.phaseCount
  let sector := slot / t.phaseCount
  if sector = 0 then ⟨bucket, c.phase, c.gates, c.matrix, c.error⟩
  else
    let k := (8 - sector) % 8
    ⟨bucket, Angle.advance c.phase k, Word.fold (c.gates ++ Word.phaseRun k), correction k * c.matrix, c.error⟩

/-- Offer a candidate. -/
def offer [GateAlgebra M] [Angle A] [Residual E] (t : Table M A E) (c : Candidate M A E) : Table M A E :=
  let t : Table M A E := { t with candidates := t.candidates + 1 }
  t.accept (t.entryOf c)

/-- The table as a place where a search puts its candidates. -/
def sink [GateAlgebra M] [Angle A] [Residual E] : Sink (Candidate M A E) (Table M A E) := ⟨offer, complete⟩

end Table

end CliffordT
