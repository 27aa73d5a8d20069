import CliffordT.Proofs.Courses

/-!
# Passes that nobody watches

A pass reports its progress and asks whether it is interrupted.  Without interruptions both only watch it: forgetting
reports and polls turns every step of the pass into a step of the pass that nobody watches (`Pass.unwatched_work`), and
so the whole pass into that one (`exhaustive_unwatched`, `meetInTheMiddle_unwatched`).

Setups that differ in their observer and in their intervals are the same when nobody watches.  So they give the sink the
same candidates, count the same work and leave the same buffer (`alike_of_unwatched`).
-/

namespace CliffordT.Search

variable {M A E σ ε : Type}

/-- The same search without an observer, without intervals and without interruptions. -/
def Setup.unwatched (x : Setup M A E σ ε) : Setup M A E σ Unit where
  probe := x.probe
  sink := x.sink
  options := { x.options with progressEvery := 0, checkEvery := 0 }
  observe := none
  poll := fun _ => none

namespace Pass

/-- A pass without its reports and polls. -/
def unwatched (p : Pass σ ε) : Pass σ Unit := ⟨p.stats, p.sink, #[], 0, p.interrupt⟩

variable (x : Setup M A E σ ε) (p : Pass σ ε)

@[simp] theorem unwatched_report (done total : Nat) : (p.report x done total).unwatched = p.unwatched := by
  unfold report
  split <;> rfl

@[simp] theorem unwatched_reportDue (n total : Nat) : (p.reportDue x n total).unwatched = p.unwatched := by
  unfold reportDue
  split
  · exact unwatched_report x p n total
  · rfl

variable {x p} in
theorem unwatched_pollDue (hpoll : ∀ k, x.poll k = none) (hi : p.interrupt = none) (n : Nat) :
    (p.pollDue x n).unwatched = p.unwatched := by
  unfold pollDue
  split
  · simp [unwatched, hpoll, hi]
  · rfl

/-- Without intervals nothing is ever due. -/
theorem pollDue_unwatched (p : Pass σ Unit) (n : Nat) : p.pollDue x.unwatched (n + 1) = p :=
  if_neg (by simp [Setup.unwatched])

theorem reportDue_unwatched (p : Pass σ Unit) (n total : Nat) : p.reportDue x.unwatched (n + 1) total = p :=
  if_neg (by simp [Setup.unwatched])

variable [GateAlgebra M]

/-- Tests look neither at reports nor at polls. -/
theorem unwatched_tryCompletions (source : Source) (m : M) (cs : List (Completion M)) :
    (p.tryCompletions x source m cs).unwatched = p.unwatched.tryCompletions x.unwatched source m cs := by
  induction cs generalizing p with
  | nil => rfl
  | cons c cs ih =>
    rw [tryCompletions, tryCompletions]
    by_cases hdiag : x.probe.isDiagonal (c.matrix * m) = true
    · rw [if_pos hdiag, if_pos (show x.unwatched.probe.isDiagonal (c.matrix * m) = true from hdiag)]
      dsimp only
      split
      · rename_i hstop
        exact (if_pos hstop).symm
      · rename_i hgo
        exact (ih _).trans (if_neg hgo).symm
    · rw [if_neg hdiag, if_neg (show ¬ x.unwatched.probe.isDiagonal (c.matrix * m) = true from hdiag)]
      exact ih _

/-- What a step does for its source, it does if nobody watches. -/
theorem unwatched_work {x : Setup M A E σ ε} {p : Pass σ ε} (hpoll : ∀ k, x.poll k = none) (hi : p.interrupt = none)
    (n total : Nat) (source : Source) (m : M) (tests : List (Completion M)) :
    (p.work x (n + 1) total source m tests).1.unwatched =
        (p.unwatched.work x.unwatched (n + 1) total source m tests).1 ∧
      (p.work x (n + 1) total source m tests).2 = (p.unwatched.work x.unwatched (n + 1) total source m tests).2 ∧
      (p.work x (n + 1) total source m tests).1.interrupt = none := by
  have hnone := interrupt_pollDue hpoll (n + 1) hi
  have htry := unwatched_tryCompletions x ((p.pollDue x (n + 1)).reportDue x (n + 1) total) source m tests
  rw [unwatched_reportDue, unwatched_pollDue hpoll hi] at htry
  have hcomplete := congrArg (fun q : Pass σ Unit => q.stats.complete) htry
  unfold work
  dsimp only
  rw [if_neg (by simp [hnone]), pollDue_unwatched,
    if_neg (show ¬ p.unwatched.interrupt.isSome = true by simp [unwatched, hi]), reportDue_unwatched]
  refine ⟨htry, hcomplete, ?_⟩
  rw [interrupt_tryCompletions, interrupt_reportDue, hnone]

/-- A pass and the pass that nobody watches, at the same step. -/
structure Forgets (p : Pass σ ε) (q : Pass σ Unit) : Prop where
  unwatched : p.unwatched = q
  interrupt : p.interrupt = none

theorem Forgets.stats {p : Pass σ ε} {q : Pass σ Unit} (h : p.Forgets q) : p.stats = q.stats :=
  congrArg Pass.stats h.unwatched

theorem Forgets.sink {p : Pass σ ε} {q : Pass σ Unit} (h : p.Forgets q) : p.sink = q.sink :=
  congrArg Pass.sink h.unwatched

end Pass

/-! ### The two passes -/

variable [GateAlgebra M] [Storable M] {x : Setup M A E σ ε} (hpoll : ∀ k, x.poll k = none) (b : Buffer M) (s : σ)
  (polls : Nat)

include hpoll

theorem exhaustive_unwatched [Zero A] [Zero E] :
    (exhaustive x b s polls).1 = (exhaustive x.unwatched b s 0).1 ∧
      (exhaustive x b s polls).2.Forgets (exhaustive x.unwatched b s 0).2 := by
  cases hseed : x.sink.complete (x.sink.offer s seed) with
  | true =>
    rw [exhaustive_of_seed_complete hseed, exhaustive_of_seed_complete (x := x.unwatched) hseed]
    exact ⟨rfl, Pass.unwatched_report .., Pass.interrupt_report ..⟩
  | false =>
    rw [exhaustive_of_seed_not_complete hseed, exhaustive_of_seed_not_complete (x := x.unwatched) hseed]
    dsimp only
    rw [Buffer.fill_fst, Buffer.fill_fst, Buffer.fill_snd, Buffer.fill_snd]
    have hstep : ∀ (p : Pass σ ε) (q : Pass σ Unit), ∀ i ∈ b.pending, p.Forgets q →
        (visitEntry x completions b.capacity p i (b.fillAll.entry i)).1.Forgets
            (visitEntry x.unwatched completions b.capacity q i (b.fillAll.entry i)).1 ∧
          (visitEntry x completions b.capacity p i (b.fillAll.entry i)).2 =
            (visitEntry x.unwatched completions b.capacity q i (b.fillAll.entry i)).2 := by
      rintro p q i - ⟨rfl, hi⟩
      obtain ⟨hwork, hflag, hnone⟩ := Pass.unwatched_work hpoll
        (p := { p with stats := { p.stats with visited := p.stats.visited + 1 } }) hi p.stats.visited b.capacity
        (.single i) (b.fillAll.entry i) completions
      exact ⟨⟨hwork, hnone⟩, hflag⟩
    obtain ⟨hend, -, htaken⟩ := walk_related (s := seeded x s polls) (t := seeded x.unwatched s 0) hstep ⟨rfl, rfl⟩
    refine ⟨by rw [htaken], ?_, ?_⟩
    · rw [Pass.unwatched_report]
      exact hend.unwatched
    · rw [Pass.interrupt_report]
      exact hend.interrupt

theorem meetInTheMiddle_unwatched :
    (meetInTheMiddle x b s polls).1 = (meetInTheMiddle x.unwatched b s 0).1 ∧
      (meetInTheMiddle x b s polls).2.1.Forgets (meetInTheMiddle x.unwatched b s 0).2.1 ∧
      (meetInTheMiddle x b s polls).2.2 = (meetInTheMiddle x.unwatched b s 0).2.2 := by
  unfold meetInTheMiddle
  dsimp only
  rw [show x.unwatched.options.requireFilled = x.options.requireFilled from rfl,
    show x.unwatched.sink = x.sink from rfl]
  split
  · exact ⟨rfl, ⟨rfl, rfl⟩, rfl⟩
  · generalize (if b.full = true then b else b.fillAll) = full
    split
    · exact ⟨rfl, ⟨rfl, rfl⟩, rfl⟩
    · have hstep : ∀ (p : Pass σ ε) (q : Pass σ Unit), ∀ n ∈ List.range' 0 (productCount full), p.Forgets q →
          (visitProduct x completions full n p).1.Forgets (visitProduct x.unwatched completions full n q).1 ∧
            (visitProduct x completions full n p).2 = (visitProduct x.unwatched completions full n q).2 := by
        rintro p q n - ⟨rfl, hi⟩
        obtain ⟨hwork, hflag, hnone⟩ := Pass.unwatched_work hpoll (p := (productCourse full).count p n) hi n
          (productCount full) (productSource full n) ((productSource full n).matrix full) completions
        exact ⟨⟨hwork, hnone⟩, hflag⟩
      obtain ⟨hend, -⟩ := walk_related (s := Pass.start .meetInTheMiddle s polls)
        (t := Pass.start .meetInTheMiddle s 0) hstep ⟨rfl, rfl⟩
      rw [← visitProducts_eq_walk, ← visitProducts_eq_walk] at hend
      refine ⟨rfl, ⟨?_, ?_⟩, rfl⟩
      · exact (Pass.unwatched_report ..).trans hend.unwatched
      · exact (Pass.interrupt_report ..).trans hend.interrupt

/-! ### Setups that differ in what watches -/

/-- Neither pass was interrupted, they did the same work and gave the sink the same. -/
structure Pass.Same {ε' : Type} (p : Pass σ ε) (q : Pass σ ε') : Prop where
  stats : q.stats = p.stats
  sink : q.sink = p.sink
  interrupt : p.interrupt = none
  interrupt_other : q.interrupt = none

omit hpoll [GateAlgebra M] [Storable M] in
theorem Pass.Forgets.same {ε' : Type} {p : Pass σ ε} {q : Pass σ ε'} {r : Pass σ Unit} (hp : p.Forgets r)
    (hq : q.Forgets r) : p.Same q :=
  ⟨hq.stats.trans hp.stats.symm, hq.sink.trans hp.sink.symm, hp.interrupt, hq.interrupt⟩

/-- From any buffer and sink, the passes with both setups leave the same buffer, the same sink and the same counts. -/
def Setup.Alike {ε' : Type} [Zero A] [Zero E] (x : Setup M A E σ ε) (y : Setup M A E σ ε') : Prop :=
  ∀ (b : Buffer M) (s : σ) (polls polls' : Nat),
    ((exhaustive y b s polls').1 = (exhaustive x b s polls).1 ∧
      (exhaustive x b s polls).2.Same (exhaustive y b s polls').2) ∧
    (meetInTheMiddle y b s polls').1 = (meetInTheMiddle x b s polls).1 ∧
      (meetInTheMiddle x b s polls).2.1.Same (meetInTheMiddle y b s polls').2.1 ∧
      (meetInTheMiddle y b s polls').2.2 = (meetInTheMiddle x b s polls).2.2

theorem alike_of_unwatched {ε' : Type} {y : Setup M A E σ ε'} [Zero A] [Zero E] (hpoll' : ∀ k, y.poll k = none)
    (h : x.unwatched = y.unwatched) : x.Alike y := by
  intro b s polls polls'
  obtain ⟨hbuffer, hpass⟩ := exhaustive_unwatched hpoll b s polls
  obtain ⟨hbuffer', hpass'⟩ := exhaustive_unwatched hpoll' b s polls'
  obtain ⟨hmeet, hsecond, herror⟩ := meetInTheMiddle_unwatched hpoll b s polls
  obtain ⟨hmeet', hsecond', herror'⟩ := meetInTheMiddle_unwatched hpoll' b s polls'
  rw [← h] at hbuffer' hpass' hmeet' hsecond' herror'
  exact ⟨⟨hbuffer'.trans hbuffer.symm, hpass.same hpass'⟩, hmeet'.trans hmeet.symm, hsecond.same hsecond',
    herror'.trans herror.symm⟩

end CliffordT.Search
