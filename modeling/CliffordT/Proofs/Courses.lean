import CliffordT.Proofs.Passes

/-!
# The course of a pass

Both passes go through a list of sources, and what they do for each is the same: count it, poll and report if that is
due, and test it (`Pass.work`).  They differ in the sources and in what they count, which is the course of a pass
(`Pass.Course`).  The first pass takes the entries of the buffer (`entryCourse`), the second the products
(`productCourse`).  While nobody interrupts it, a pass is at step `n` behind `n` steps (`Pass.atStep_walk`).
-/

namespace CliffordT.Search

variable {M A E σ ε : Type}

/-! ### One step -/

/-- The steps of a pass, by which its polls are due. -/
def Stats.steps (s : Stats) : Nat :=
  match s.stage with
  | .exhaustive => s.visited
  | .meetInTheMiddle => s.products

namespace Pass

variable [GateAlgebra M] {x : Setup M A E σ ε} {p : Pass σ ε}

/-- Tests do not change what polls and reports go by. -/
theorem stats_tryCompletions (source : Source) (m : M) (cs : List (Completion M)) :
    ∃ tested hits complete, (p.tryCompletions x source m cs).stats =
      { p.stats with tested := tested, hits := hits, complete := complete } := by
  induction cs generalizing p with
  | nil => exact ⟨_, _, _, rfl⟩
  | cons c cs ih =>
    rw [tryCompletions]
    split
    · dsimp only
      split
      · exact ⟨_, _, _, rfl⟩
      · obtain ⟨tested, hits, complete, h⟩ := ih (p := p.countTest.offer x
          ⟨x.probe.phase (c.matrix * m), source.word c, c.matrix * m, x.probe.error (c.matrix * m)⟩)
        exact ⟨tested, hits, complete, h⟩
    · obtain ⟨tested, hits, complete, h⟩ := ih (p := p.countTest)
      exact ⟨tested, hits, complete, h⟩

/-- What a step does when it is counted: poll, report and test. -/
def work (x : Setup M A E σ ε) (n total : Nat) (source : Source) (m : M) (tests : List (Completion M))
    (p : Pass σ ε) : Pass σ ε × Bool :=
  let p := p.pollDue x n
  if p.interrupt.isSome then (p, true)
  else
    let p := (p.reportDue x n total).tryCompletions x source m tests
    (p, p.stats.complete)

/-- The pass has made `n` steps and was not interrupted. -/
structure AtStep (stage : Stage) (n : Nat) (p : Pass σ ε) : Prop where
  stage : p.stats.stage = stage
  steps : p.stats.steps = n
  interrupt : p.interrupt = none

variable {stage : Stage} {n total : Nat} {source : Source} {m : M} {tests : List (Completion M)}

theorem AtStep.work (h : p.AtStep stage n) (hnone : (p.pollDue x n).interrupt = none) :
    (p.work x n total source m tests).1.AtStep stage n := by
  unfold Pass.work
  dsimp only
  rw [if_neg (by simp [hnone])]
  obtain ⟨tested, hits, complete, hstats⟩ := stats_tryCompletions (x := x) source m tests
    (p := (p.pollDue x n).reportDue x n total)
  rw [stats_reportDue, stats_pollDue] at hstats
  refine ⟨?_, ?_, ?_⟩
  · rw [hstats]
    exact h.stage
  · rw [hstats]
    exact h.steps
  · rw [interrupt_tryCompletions, interrupt_reportDue, hnone]

/-! ### A whole pass -/

/-- What a pass goes through: the source and the matrix of each step, how the step is counted, and the number by which
its poll and report are due. -/
structure Course (M σ ε : Type) where
  total : Nat
  source : Nat → Source
  matrix : Nat → M
  tests : List (Completion M)
  count : Pass σ ε → Nat → Pass σ ε
  number : Pass σ ε → Nat → Nat

/-- One step of a pass, for the `n`-th of its sources. -/
def Course.step (c : Course M σ ε) (x : Setup M A E σ ε) (p : Pass σ ε) (n : Nat) : Pass σ ε × Bool :=
  (c.count p n).work x (c.number p n) c.total (c.source n) (c.matrix n) c.tests

/-- The counting is right: the step behind `n` steps counts as step `n + 1`. -/
structure Course.Counts (c : Course M σ ε) (stage : Stage) : Prop where
  atStep : ∀ {p n}, p.AtStep stage n → (c.count p n).AtStep stage (n + 1)
  number : ∀ {p n}, p.AtStep stage n → c.number p n = n + 1

section

variable {c : Course M σ ε} (hc : c.Counts stage) (hpoll : ∀ k, x.poll k = none)

include hc hpoll

theorem atStep_step (h : p.AtStep stage n) : (c.step x p n).1.AtStep stage (n + 1) := by
  unfold Course.step
  rw [hc.number h]
  exact (hc.atStep h).work (interrupt_pollDue hpoll _ (hc.atStep h).interrupt)

theorem atStep_walk (h : p.AtStep stage n) (k : Nat) :
    (walk (c.step x) p (List.range' n k)).1.AtStep stage (n + walked (c.step x) p (List.range' n k)) := by
  induction k generalizing p n with
  | zero => exact h
  | succ k ih =>
    have hfirst := atStep_step hc hpoll h
    rw [List.range'_succ]
    cases hstop : (c.step x p n).2 with
    | true =>
      rw [walk_cons_of_stop hstop, walked, if_pos hstop]
      exact hfirst
    | false =>
      rw [walk_cons_of_go hstop, walked, if_neg (by simp [hstop]), Nat.add_comm _ 1, ← Nat.add_assoc]
      exact ih hfirst

theorem steps_walk_le (h : p.AtStep stage n) (k : Nat) :
    (walk (c.step x) p (List.range' n k)).1.stats.steps ≤ n + k := by
  have hle := walked_le_length (c.step x) p (List.range' n k)
  rw [List.length_range'] at hle
  rw [(atStep_walk hc hpoll h k).steps]
  exact Nat.add_le_add_left hle n

end

end Pass

/-! ### The two passes -/

variable [GateAlgebra M] [Storable M] (b : Buffer M)

/-- The first pass goes through the entries of a new buffer and counts them as visited. -/
def entryCourse : Pass.Course M σ ε where
  total := b.capacity
  source := .single
  matrix := b.fillAll.entry
  tests := completions
  count p _ := { p with stats := { p.stats with visited := p.stats.visited + 1 } }
  number p _ := p.stats.visited + 1

theorem entryCourse_counts : (entryCourse b : Pass.Course M σ ε).Counts .exhaustive where
  atStep {p n} h := by
    have hvisited : p.stats.visited = n := by simpa [Stats.steps, h.stage] using h.steps
    exact ⟨h.stage, by simp [entryCourse, Stats.steps, h.stage, hvisited], h.interrupt⟩
  number {p n} h := by
    have hvisited : p.stats.visited = n := by simpa [Stats.steps, h.stage] using h.steps
    simp [entryCourse, hvisited]

/-- The second pass goes through the products and counts them by their own numbers.  Where a first list begins, it
counts as visited. -/
def productCourse : Pass.Course M σ ε where
  total := productCount b
  source := productSource b
  matrix n := (productSource b n).matrix b
  tests := completions
  count p n :=
    let visited := if n % longestCount b = 0 then p.stats.visited + 1 else p.stats.visited
    { p with stats := { p.stats with visited := visited, products := n + 1 } }
  number _ n := n + 1

theorem productCourse_counts : (productCourse b : Pass.Course M σ ε).Counts .meetInTheMiddle where
  atStep h := ⟨h.stage, by simp [productCourse, Stats.steps, h.stage], h.interrupt⟩
  number _ := rfl

end CliffordT.Search
