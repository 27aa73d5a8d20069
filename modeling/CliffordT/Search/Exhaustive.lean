import CliffordT.Buffer
import CliffordT.Search.Pass

/-!
# The exhaustive pass

The first pass offers the empty word, then fills the buffer and tests every entry when it is stored. It stops at the
entry where the sink is complete or the pass is interrupted; an entry at which it is interrupted is stored but not
tested.
-/

namespace CliffordT.Search

variable {M A E σ ε : Type} [Storable M] [GateAlgebra M] [Zero A] [Zero E]

/-- The empty word, which turns by nothing. -/
def seed : Candidate M A E := ⟨0, [], 1, 0⟩

/-- Count, poll, report and test one stored entry. The second component says whether to stop. -/
def visitEntry (x : Setup M A E σ ε) (tests : List (Completion M)) (total : Nat) (p : Pass σ ε) (i : Nat) (m : M) :
    Pass σ ε × Bool :=
  let n := p.stats.visited + 1
  let p : Pass σ ε := { p with stats := { p.stats with visited := n } }
  let p := p.pollDue x n
  if p.interrupt.isSome then (p, true)
  else
    let p := (p.reportDue x n total).tryCompletions x (.single i) m tests
    (p, p.stats.complete)

/-- Run the first pass on a buffer and a sink, with so many polls made before. -/
def exhaustive (x : Setup M A E σ ε) (b : Buffer M) (sink : σ) (polls : Nat) : Buffer M × Pass σ ε :=
  let total := b.capacity
  let p : Pass σ ε := (Pass.start .exhaustive sink polls).offer x seed
  if p.stats.complete then (b, p.report x 0 total)
  else
    let (b, p, _) := b.fill (visitEntry x completions total) p
    (b, p.report x p.stats.visited total)

end CliffordT.Search
