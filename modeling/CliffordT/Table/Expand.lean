import CliffordT.Table.Basic

/-!
# The whole circle

Slot `b` of sector `k` is bucket `b` with the correction of `k` eighths appended. The word is folded, so that a phase
run at the end of the bucket's word merges with the correction.
-/

namespace CliffordT.Table

variable {M A E : Type}

/-- The bucket that a slot is made from, and the sector it lies in. The division cuts off towards zero. -/
def correctionOf (t : Table M A E) (s : Int) : Int × Int := (s.tmod t.phaseCount, s.tdiv t.phaseCount)

/-- The word of a slot. -/
def slotWord (t : Table M A E) (s : Nat) : Word :=
  match t.entry? (s % t.phaseCount) with
  | none => notFound
  | some e =>
    let k := s / t.phaseCount
    if k = 0 then e.gates else Word.fold (e.gates ++ Word.phaseRun k)

/-- The words of all slots. -/
def expand (t : Table M A E) : List Word := (List.range t.points).map t.slotWord

end CliffordT.Table
