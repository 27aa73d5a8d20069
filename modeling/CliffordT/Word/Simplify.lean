import CliffordT.Word.Basic

/-!
# Cancelling basis changes

Two basis changes in a row undo each other. `simplify` removes such pairs, also those that meet only after a pair
between them is gone. The word is read once, with what is kept so far held in reverse, its last byte in front.
-/

namespace CliffordT.Word

/-- Whether two basis changes stand side by side. -/
def hasPair : Word → Bool
  | a :: b :: w => (a == Gate.byte .h && b == Gate.byte .h) || hasPair (b :: w)
  | _ => false

/-- Append a byte to a word held in reverse; a basis change cancels one at the end. -/
def cancelStep (kept : Word) (b : UInt8) : Word :=
  match kept with
  | a :: rest => if b = Gate.byte .h ∧ a = Gate.byte .h then rest else b :: kept
  | [] => [b]

/-- Remove pairs of basis changes until none is left. A word without a pair is returned as it is. -/
def simplify (w : Word) : Word :=
  if hasPair w then (w.foldl cancelStep []).reverse else w

end CliffordT.Word
