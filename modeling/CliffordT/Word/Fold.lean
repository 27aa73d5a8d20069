import CliffordT.Word.Basic

/-!
# Folding phase runs

`fold` brings a word to a normal form: every run of phase gates becomes the shortest run of the same total phase, and
pairs of basis changes cancel, also those that a vanishing run brings together. As in `simplify`, the word is read
once and what is kept so far is held in reverse.
-/

namespace CliffordT.Word

/-- The total phase of the phase gates at the front of a word, in eighths of a turn. -/
def leadingEighths (w : Word) : Nat := (w.takeWhile isPhase).foldr (fun b n => eighths b + n) 0

/-- Append a byte to a folded word held in reverse. A phase gate is summed with the run at the end, and a basis change
cancels one at the end. -/
def foldStep (kept : Word) (b : UInt8) : Word :=
  match eighths? b with
  | some u => (phaseRun (u + leadingEighths kept)).reverse ++ kept.dropWhile isPhase
  | none =>
    match kept with
    | a :: rest => if b = Gate.byte .h ∧ a = Gate.byte .h then rest else b :: kept
    | [] => [b]

/-- The folded form of a word. -/
def fold (w : Word) : Word := (w.foldl foldStep []).reverse

end CliffordT.Word
