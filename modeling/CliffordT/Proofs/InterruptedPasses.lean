import CliffordT.Proofs.Courses

/-!
# Passes that are interrupted

A pass stops where a poll finds it interrupted, whatever the polls before have answered.  Up to there it has done what
it does without interruptions: all sources before that step were tested, and the sink was given their candidates
(`Pass.Stopped`).  The step itself is counted, but its source is not tested.

So a pass ends in one of two ways (`Pass.walk_cases`): it goes through all its sources, unless the sink is complete
before, or it stops at a step where a poll is due.
-/

namespace CliffordT.Search

variable {M A E σ ε : Type} [GateAlgebra M] [Storable M]

namespace Pass

/-- Counting a step leaves the sink and the tests alone, and what is tested are the matrices of a buffer. -/
structure Course.Goes (c : Course M σ ε) (b : Buffer M) : Prop where
  matrix : ∀ n, c.matrix n = (c.source n).matrix b
  tests : c.tests = completions
  sink : ∀ p n, (c.count p n).sink = p.sink
  complete : ∀ p n, (c.count p n).stats.complete = p.stats.complete
  tested : ∀ p n, (c.count p n).stats.tested = p.stats.tested

/-- The pass was stopped by a poll after it had tested some sources. -/
structure Stopped (x : Setup M A E σ ε) (b : Buffer M) (i : Interrupt) (before : List Source) (p q : Pass σ ε) :
    Prop where
  offered : x.sink.offerAll p.sink (before.flatMap (x.probe.hits b)) = (q.sink, false)
  complete : q.stats.complete = false
  interrupt : q.interrupt = some i
  due : q.stats.steps % x.options.checkEvery = 0

variable {x : Setup M A E σ ε} {b : Buffer M} {i : Interrupt} {before ss : List Source} {p q r : Pass σ ε}

theorem Stopped.after (h : Stopped x b i before q r) (htests : Tests x b ss p q) (hq : q.stats.complete = false) :
    Stopped x b i (ss ++ before) p r where
  offered := by
    rw [List.flatMap_append, Sink.offerAll_append_of_not_complete (htests.complete.symm.trans hq), ← htests.sink]
    exact h.offered
  complete := h.complete
  interrupt := h.interrupt
  due := h.due

section

variable {c : Course M σ ε} {stage : Stage} (hc : c.Counts stage) (hg : c.Goes b) {n : Nat}

include hc hg

/-- A step tests its source, or it stops the pass because a poll is due that finds it interrupted. -/
theorem step_cases (h : p.AtStep stage n) (hp : p.stats.complete = false) :
    (Tests x b [c.source n] p (c.step x p n).1 ∧ (c.step x p n).2 = (c.step x p n).1.stats.complete ∧
        (c.step x p n).1.AtStep stage (n + 1)) ∨
      ∃ i, Stopped x b i [] p (c.step x p n).1 ∧ (c.step x p n).2 = true ∧
        (c.step x p n).1.stats.stage = stage ∧ (c.step x p n).1.stats.steps = n + 1 := by
  have hat := hc.atStep h
  unfold Course.step
  rw [hc.number h, hg.matrix, hg.tests]
  cases hpoll : ((c.count p n).pollDue x (n + 1)).interrupt with
  | none =>
    refine Or.inl ⟨?_, ?_, hat.work hpoll⟩
    · unfold work
      dsimp only
      rw [if_neg (by simp [hpoll])]
      refine tests_tryCompletions (c.source n) ?_ ?_ ?_ ?_
      · rw [sink_reportDue, sink_pollDue, hg.sink]
      · rw [stats_reportDue, stats_pollDue, hg.complete, hp]
      · rw [stats_reportDue, stats_pollDue, hg.tested]
      · rw [interrupt_reportDue, hpoll]
    · unfold work
      dsimp only
      rw [if_neg (by simp [hpoll])]
  | some i =>
    have hwork : (c.count p n).work x (n + 1) c.total (c.source n) ((c.source n).matrix b) completions =
        ((c.count p n).pollDue x (n + 1), true) := by
      unfold work
      exact if_pos (by simp [hpoll])
    rw [hwork]
    dsimp only
    have hstats := stats_pollDue x (n + 1) (c.count p n)
    -- without a poll the pass would not be interrupted, so one was due
    have hdue : (n + 1) % x.options.checkEvery = 0 := by
      by_contra hnot
      rw [pollDue, if_neg hnot, hat.interrupt] at hpoll
      cases hpoll
    refine Or.inr ⟨i, ⟨?_, ?_, hpoll, ?_⟩, rfl, ?_, ?_⟩
    · rw [sink_pollDue, hg.sink]
      rfl
    · rw [hstats, hg.complete, hp]
    · rw [hstats, hat.steps, hdue]
    · rw [hstats, hat.stage]
    · rw [hstats, hat.steps]

/-- A walk tests its sources, up to where the sink is complete, or it stops at one of them because a poll finds the pass
interrupted. -/
theorem walk_cases (h : p.AtStep stage n) (hp : p.stats.complete = false) (k : Nat) :
    (Tests x b ((List.range' n k).map c.source) p (walk (c.step x) p (List.range' n k)).1 ∧
        (walk (c.step x) p (List.range' n k)).2 = (walk (c.step x) p (List.range' n k)).1.stats.complete ∧
        ((walk (c.step x) p (List.range' n k)).2 = false →
          (walk (c.step x) p (List.range' n k)).1.AtStep stage (n + k))) ∨
      ∃ i, ∃ j < k, Stopped x b i ((List.range' n j).map c.source) p (walk (c.step x) p (List.range' n k)).1 ∧
        (walk (c.step x) p (List.range' n k)).1.stats.stage = stage ∧
        (walk (c.step x) p (List.range' n k)).1.stats.steps = n + j + 1 := by
  induction k generalizing p n with
  | zero => exact Or.inl ⟨Tests.nil hp h.interrupt, hp.symm, fun _ => h⟩
  | succ k ih =>
    rw [List.range'_succ]
    rcases step_cases hc hg (x := x) h hp with ⟨htest, hflag, hat⟩ | ⟨i, hstopped, hflag, hstage, hsteps⟩
    · cases hstop : (c.step x p n).2 with
      | true =>
        rw [walk_cons_of_stop hstop]
        have hcomplete := hflag.symm.trans hstop
        exact Or.inl ⟨htest.append_of_complete hcomplete _, hcomplete.symm, fun h => by cases h⟩
      | false =>
        rw [walk_cons_of_go hstop]
        have hgo := hflag.symm.trans hstop
        rcases ih hat hgo with ⟨htests, hend, hlast⟩ | ⟨i, j, hj, hstopped, hstage, hsteps⟩
        · rw [Nat.add_right_comm n 1 k] at hlast
          exact Or.inl ⟨htest.append_of_not_complete hgo htests, hend, hlast⟩
        · refine Or.inr ⟨i, j + 1, by omega, ?_, hstage, by omega⟩
          rw [List.range'_succ]
          exact hstopped.after htest hgo
    · rw [walk_cons_of_stop hflag]
      exact Or.inr ⟨i, 0, by omega, hstopped, hstage, hsteps⟩

end

end Pass

/-! ### The two passes -/

theorem entryCourse_goes (b : Buffer M) : (entryCourse b : Pass.Course M σ ε).Goes b.fillAll where
  matrix _ := rfl
  tests := rfl
  sink _ _ := rfl
  complete _ _ := rfl
  tested _ _ := rfl

theorem productCourse_goes (b : Buffer M) : (productCourse b : Pass.Course M σ ε).Goes b where
  matrix _ := rfl
  tests := rfl
  sink _ _ := rfl
  complete _ _ := rfl
  tested _ _ := rfl

/-- The first pass on a buffer with nothing computed, whatever its polls answer. -/
theorem exhaustive_cases [Zero A] [Zero E] (x : Setup M A E σ ε) {b : Buffer M} (hb : b.filled = 0) (s : σ)
    (polls : Nat) :
    let r := exhaustive x b s polls
    (r.2.interrupt = none ∧ x.sink.offerAll s (firstOffers x.probe b b.capacity) = (r.2.sink, r.2.stats.complete) ∧
        (r.2.stats.complete = false → r.1 = b.fillAll ∧ r.2.stats.steps = b.capacity)) ∨
      ∃ i j, r.2.interrupt = some i ∧ r.2.stats.stage = .exhaustive ∧ r.2.stats.steps = j + 1 ∧
        (j + 1) % x.options.checkEvery = 0 ∧ x.sink.offerAll s (firstOffers x.probe b j) = (r.2.sink, false) := by
  dsimp only
  have hpending : b.pending = List.range' 0 b.capacity := by rw [Buffer.pending, hb, Nat.sub_zero]
  have hoffers (j : Nat) : firstOffers x.probe b j =
      seed :: ((List.range' 0 j).map Source.single).flatMap (x.probe.hits b.fillAll) := by
    rw [firstOffers, entrySources, hb, Nat.sub_zero]
  cases hseed : x.sink.complete (x.sink.offer s seed) with
  | true =>
    rw [exhaustive_of_seed_complete hseed, hoffers, Sink.offerAll_cons_of_complete hseed]
    simp only [Pass.sink_report, Pass.stats_report, Pass.interrupt_report]
    have hcomplete : (seeded x s polls).stats.complete = true := hseed
    refine Or.inl ⟨rfl, by rw [hcomplete]; rfl, fun hnot => ?_⟩
    rw [hcomplete] at hnot
    cases hnot
  | false =>
    have hstart : (seeded x s polls).AtStep .exhaustive 0 := ⟨rfl, rfl, rfl⟩
    have hwalk := Pass.walk_cases (entryCourse_counts b) (entryCourse_goes b) (x := x) hstart hseed b.capacity
    rw [exhaustive_of_seed_not_complete hseed]
    simp only [Pass.sink_report, Pass.stats_report, Pass.interrupt_report]
    rcases hwalk with ⟨htests, hflag, hlast⟩ | ⟨i, j, hj, hstopped, hstage, hsteps⟩
    · have hfill : (b.fill (visitEntry x completions b.capacity) (seeded x s polls)).2 =
          walk ((entryCourse b).step x) (seeded x s polls) (List.range' 0 b.capacity) := by
        rw [Buffer.fill_snd, hpending]
        rfl
      rw [← hfill] at htests hflag hlast
      refine Or.inl ⟨htests.interrupt, ?_, fun hnot => ⟨Buffer.fill_fst_of_end _ (hflag.trans hnot), ?_⟩⟩
      · rw [hoffers, Sink.offerAll_cons_of_not_complete hseed]
        exact htests.offered.symm
      · rw [(hlast (hflag.trans hnot)).steps, Nat.zero_add]
    · rw [Buffer.fill_snd, hpending]
      rw [Nat.zero_add] at hsteps
      refine Or.inr ⟨i, j, hstopped.interrupt, hstage, hsteps, ?_, ?_⟩
      · have hdue := hstopped.due
        rwa [hsteps] at hdue
      · rw [hoffers, Sink.offerAll_cons_of_not_complete hseed]
        exact hstopped.offered

/-- The second pass on a full buffer with a sink that is not complete, whatever its polls answer. -/
theorem meetInTheMiddle_cases (x : Setup M A E σ ε) {b : Buffer M} (hfull : b.full = true) {s : σ}
    (hs : x.sink.complete s = false) (polls : Nat) :
    let r := meetInTheMiddle x b s polls
    r.2.1.interrupt = none ∨
      ∃ i j, r.2.1.interrupt = some i ∧ r.2.1.stats.stage = .meetInTheMiddle ∧ r.2.1.stats.steps = j + 1 ∧
        (j + 1) % x.options.checkEvery = 0 ∧
        x.sink.offerAll s (((pairSources b.longest b.capacity).take j).flatMap (x.probe.hits b)) =
          (r.2.1.sink, false) := by
  dsimp only
  have hrun : (meetInTheMiddle x b s polls).2.1 =
      (visitProducts x completions b (productCount b) 0 (Pass.start .meetInTheMiddle s polls)).report x
        (visitProducts x completions b (productCount b) 0 (Pass.start .meetInTheMiddle s polls)).stats.products
        (productCount b) := by
    simp [meetInTheMiddle, hfull, hs]
  have hstart : (Pass.start .meetInTheMiddle s polls : Pass σ ε).AtStep .meetInTheMiddle 0 := ⟨rfl, rfl, rfl⟩
  have hwalk := Pass.walk_cases (productCourse_counts b) (productCourse_goes b) (x := x) hstart rfl (productCount b)
  rw [hrun, visitProducts_eq_walk]
  simp only [Pass.sink_report, Pass.stats_report, Pass.interrupt_report]
  rcases hwalk with ⟨htests, -⟩ | ⟨i, j, hj, hstopped, hstage, hsteps⟩
  · exact Or.inl htests.interrupt
  · have htake : (pairSources b.longest b.capacity).take j = (List.range' 0 j).map (productSource b) := by
      rw [← map_productSource, ← List.map_take, List.take_range, Nat.min_eq_left (Nat.le_of_lt hj),
        List.range_eq_range']
    rw [Nat.zero_add] at hsteps
    refine Or.inr ⟨i, j, hstopped.interrupt, hstage, hsteps, ?_, ?_⟩
    · have hdue := hstopped.due
      rwa [hsteps] at hdue
    · rw [htake]
      exact hstopped.offered

end CliffordT.Search
