import CliffordT.Buffer
import CliffordT.Search.Pass

/-!
# Meet in the middle

The second pass joins block lists: every shorter list of the buffer, in increasing order, is followed by every longest
list, in increasing order, and the product of the two stored matrices is tested. Joined in this order the lists are
those that come after the buffer's in the numbering. Product number `n` joins list `n / w` with the longest list
`n % w`, where `w` is the number of longest lists.
-/

namespace CliffordT.Search

variable {M A E σ ε : Type} [Storable M] [GateAlgebra M]

/-- Why the second pass does not run. -/
inductive MeetError where
  /-- the buffer has unwritten entries and the options insist on a full one -/
  | bufferNotFilled
deriving DecidableEq, Repr

/-- The wording of such an error. -/
def MeetError.message : MeetError → String
  | .bufferNotFilled => "search: buffer not fully filled"

/-- How many longest lists a buffer has. -/
def longestCount (b : Buffer M) : Nat := b.capacity - b.longest

/-- How many products a buffer gives. -/
def productCount (b : Buffer M) : Nat := b.longest * longestCount b

/-- Count, poll, report and test product number `n`. The second component says whether to stop. -/
def visitProduct (x : Setup M A E σ ε) (tests : List (Completion M)) (b : Buffer M) (n : Nat) (p : Pass σ ε) :
    Pass σ ε × Bool :=
  let width := longestCount b
  let first := n / width
  let second := b.longest + n % width
  let visited := if n % width = 0 then p.stats.visited + 1 else p.stats.visited
  let p : Pass σ ε := { p with stats := { p.stats with visited := visited, products := n + 1 } }
  let p := p.pollDue x (n + 1)
  if p.interrupt.isSome then (p, true)
  else
    let p := (p.reportDue x (n + 1) (productCount b)).tryCompletions x (.joined first second)
      (b.entry second * b.entry first) tests
    (p, p.stats.complete)

/-- Test products from number `n` on, at most `count` of them. -/
def visitProducts (x : Setup M A E σ ε) (tests : List (Completion M)) (b : Buffer M) :
    Nat → Nat → Pass σ ε → Pass σ ε
  | 0, _, p => p
  | count + 1, n, p =>
    let (p, stop) := visitProduct x tests b n p
    if stop then p else visitProducts x tests b count (n + 1) p

/-- Run the second pass on a buffer and a sink, with so many polls made before. Missing entries are computed first,
unless the options forbid it; a sink that is complete already ends the pass at once. -/
def meetInTheMiddle (x : Setup M A E σ ε) (b : Buffer M) (sink : σ) (polls : Nat) :
    Buffer M × Pass σ ε × Option MeetError :=
  let p : Pass σ ε := Pass.start .meetInTheMiddle sink polls
  if !b.full && x.options.requireFilled then (b, p, some .bufferNotFilled)
  else
    let b := if b.full then b else b.fillAll
    if x.sink.complete sink then (b, { p with stats := { p.stats with complete := true } }, none)
    else
      let p := visitProducts x completions b (productCount b) 0 p
      (b, p.report x p.stats.products (productCount b), none)

end CliffordT.Search
