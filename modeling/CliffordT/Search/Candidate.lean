import CliffordT.Sequence.Index
import CliffordT.Matrix.Block

/-!
# Candidates and where they go

A search looks for words whose matrix is diagonal. What it needs to know about a matrix is a probe: whether it counts
as diagonal, by which angle it turns, and how far it is from diagonal. What it finds are candidates, and they go to a
sink: a state that takes candidates and can say that it has enough.
-/

namespace CliffordT

/-- A word with a diagonal matrix, as found. -/
structure Candidate (M A E : Type) where
  /-- the angle by which the matrix turns -/
  phase : A
  gates : Word
  matrix : M
  /-- how far the matrix is from diagonal -/
  error : E

/-- What a search measures on a matrix. -/
structure Probe (M A E : Type) where
  isDiagonal : M → Bool
  phase : M → A
  error : M → E

/-- A state that takes values one by one until it is complete. -/
structure Sink (C σ : Type) where
  offer : σ → C → σ
  complete : σ → Bool

/-- The block lists that make a searched matrix: one list, or two in a row. -/
inductive Source where
  | single (i : Nat)
  | joined (first second : Nat)
deriving DecidableEq, Repr

/-- The block lists of a source. -/
def Source.blocks : Source → List (List Block)
  | .single i => [Index.decode i]
  | .joined p s => [Index.decode p, Index.decode s]

/-- The word of a source with a completion behind it. -/
def Source.word {M : Type} (source : Source) (c : Completion M) : Word :=
  Word.simplify (Word.ofBlocks source.blocks ++ c.word)

/-- A sink that keeps every candidate and is complete once it holds `need` of them; never if `need` is not positive. -/
def Sink.recorder {C : Type} (need : Int) : Sink C (Array C) where
  offer := fun cs c => cs.push c
  complete := fun cs => 0 < need && need ≤ cs.size

end CliffordT
