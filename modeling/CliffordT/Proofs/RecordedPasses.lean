import CliffordT.Proofs.Courses

/-!
# Passes that write down their calls

What a pass offers to its sink, call by call, is what a recording sink has written down when the same pass has gone to
it.  Recording makes no difference to the pass: forgetting what was written down turns every step with the recording
sink into the step without it, whatever the polls answer.  So the two passes leave the same buffer and the same counts,
made the same polls and the same reports, and ended in the same way (`exhaustive_recording`,
`meetInTheMiddle_recording`).
-/

namespace CliffordT

/-- A recording sink has written down the values that it was offered. -/
theorem Sink.foldl_recording {C σ : Type} (k : Sink C σ) (s : σ) (log cs : List C) :
    cs.foldl k.recording.offer (s, log) = (cs.foldl k.offer s, log ++ cs) := by
  induction cs generalizing s log with
  | nil => rw [List.append_nil, List.foldl_nil, List.foldl_nil]
  | cons c cs ih =>
    have hfirst : k.recording.offer (s, log) c = (k.offer s c, log ++ [c]) := rfl
    rw [List.foldl_cons, List.foldl_cons, hfirst, ih, List.append_assoc, List.singleton_append]

namespace Search

variable {M A E σ ε : Type}

namespace Pass

/-- A pass without what its sink has written down. -/
def unrecorded {C : Type} (p : Pass (σ × C) ε) : Pass σ ε := ⟨p.stats, p.sink.1, p.events, p.polls, p.interrupt⟩

variable (x : Setup M A E σ ε) (p : Pass (σ × List (Candidate M A E)) ε)

theorem unrecorded_report (done total : Nat) :
    (p.report x.recording done total).unrecorded = p.unrecorded.report x done total := by
  unfold report Setup.recording
  cases x.observe with
  | none => rfl
  | some f => rfl

theorem unrecorded_reportDue (n total : Nat) :
    (p.reportDue x.recording n total).unrecorded = p.unrecorded.reportDue x n total := by
  unfold reportDue
  by_cases hdue : n % x.options.progressEvery = 0
  · rw [if_pos hdue, if_pos (show n % x.recording.options.progressEvery = 0 from hdue)]
    exact unrecorded_report x p n total
  · rw [if_neg hdue, if_neg (show ¬ n % x.recording.options.progressEvery = 0 from hdue)]

theorem unrecorded_pollDue (n : Nat) : (p.pollDue x.recording n).unrecorded = p.unrecorded.pollDue x n := by
  unfold pollDue
  by_cases hdue : n % x.options.checkEvery = 0
  · rw [if_pos hdue, if_pos (show n % x.recording.options.checkEvery = 0 from hdue)]
    rfl
  · rw [if_neg hdue, if_neg (show ¬ n % x.recording.options.checkEvery = 0 from hdue)]

variable [GateAlgebra M]

theorem unrecorded_tryCompletions (source : Source) (m : M) (cs : List (Completion M)) :
    (p.tryCompletions x.recording source m cs).unrecorded = p.unrecorded.tryCompletions x source m cs := by
  induction cs generalizing p with
  | nil => rfl
  | cons c cs ih =>
    rw [tryCompletions, tryCompletions]
    by_cases hdiag : x.probe.isDiagonal (c.matrix * m) = true
    · rw [if_pos hdiag, if_pos (show x.recording.probe.isDiagonal (c.matrix * m) = true from hdiag)]
      dsimp only
      -- both sinks are complete or neither is, since the recording one asks the other
      split
      · rename_i hstop
        exact (if_pos hstop).symm
      · rename_i hgo
        exact (ih _).trans (if_neg hgo).symm
    · rw [if_neg hdiag, if_neg (show ¬ x.recording.probe.isDiagonal (c.matrix * m) = true from hdiag)]
      exact ih _

theorem unrecorded_work (n total : Nat) (source : Source) (m : M) (tests : List (Completion M)) :
    (p.work x.recording n total source m tests).1.unrecorded = (p.unrecorded.work x n total source m tests).1 ∧
      (p.work x.recording n total source m tests).2 = (p.unrecorded.work x n total source m tests).2 := by
  have hpoll := unrecorded_pollDue x p n
  have hinterrupt : (p.pollDue x.recording n).interrupt = (p.unrecorded.pollDue x n).interrupt :=
    congrArg Pass.interrupt hpoll
  unfold work
  dsimp only
  rw [hinterrupt]
  split
  · exact ⟨hpoll, rfl⟩
  · have htry := unrecorded_tryCompletions x ((p.pollDue x.recording n).reportDue x.recording n total) source m tests
    rw [unrecorded_reportDue, hpoll] at htry
    exact ⟨htry, congrArg (fun q : Pass σ ε => q.stats.complete) htry⟩

end Pass

/-! ### The two passes -/

variable [GateAlgebra M] [Storable M] (x : Setup M A E σ ε) (b : Buffer M) (s : σ) (log : List (Candidate M A E))
  (polls : Nat)

theorem exhaustive_recording [Zero A] [Zero E] :
    (exhaustive x.recording b (s, log) polls).1 = (exhaustive x b s polls).1 ∧
      (exhaustive x.recording b (s, log) polls).2.unrecorded = (exhaustive x b s polls).2 := by
  cases hseed : x.sink.complete (x.sink.offer s seed) with
  | true =>
    rw [exhaustive_of_seed_complete hseed, exhaustive_of_seed_complete (x := x.recording) (s := (s, log)) hseed]
    exact ⟨rfl, Pass.unrecorded_report ..⟩
  | false =>
    rw [exhaustive_of_seed_not_complete hseed, exhaustive_of_seed_not_complete (x := x.recording) (s := (s, log)) hseed]
    dsimp only
    rw [Buffer.fill_fst, Buffer.fill_fst, Buffer.fill_snd, Buffer.fill_snd]
    have hstep : ∀ (p : Pass (σ × List (Candidate M A E)) ε) (q : Pass σ ε), ∀ i ∈ b.pending, p.unrecorded = q →
        (visitEntry x.recording completions b.capacity p i (b.fillAll.entry i)).1.unrecorded =
            (visitEntry x completions b.capacity q i (b.fillAll.entry i)).1 ∧
          (visitEntry x.recording completions b.capacity p i (b.fillAll.entry i)).2 =
            (visitEntry x completions b.capacity q i (b.fillAll.entry i)).2 := by
      rintro p q i - rfl
      exact Pass.unrecorded_work x { p with stats := { p.stats with visited := p.stats.visited + 1 } }
        (p.stats.visited + 1) b.capacity (.single i) (b.fillAll.entry i) completions
    obtain ⟨hend, -, htaken⟩ :=
      walk_related (s := seeded x.recording (s, log) polls) (t := seeded x s polls) hstep rfl
    refine ⟨by rw [htaken], ?_⟩
    rw [Pass.unrecorded_report, hend, ← hend]
    rfl

theorem meetInTheMiddle_recording :
    (meetInTheMiddle x.recording b (s, log) polls).1 = (meetInTheMiddle x b s polls).1 ∧
      (meetInTheMiddle x.recording b (s, log) polls).2.1.unrecorded = (meetInTheMiddle x b s polls).2.1 ∧
      (meetInTheMiddle x.recording b (s, log) polls).2.2 = (meetInTheMiddle x b s polls).2.2 := by
  unfold meetInTheMiddle
  dsimp only
  rw [show x.recording.options.requireFilled = x.options.requireFilled from rfl,
    show x.recording.sink.complete (s, log) = x.sink.complete s from rfl]
  split
  · exact ⟨rfl, rfl, rfl⟩
  · generalize (if b.full = true then b else b.fillAll) = full
    split
    · exact ⟨rfl, rfl, rfl⟩
    · have hstep : ∀ (p : Pass (σ × List (Candidate M A E)) ε) (q : Pass σ ε),
          ∀ n ∈ List.range' 0 (productCount full), p.unrecorded = q →
          (visitProduct x.recording completions full n p).1.unrecorded = (visitProduct x completions full n q).1 ∧
            (visitProduct x.recording completions full n p).2 = (visitProduct x completions full n q).2 := by
        rintro p q n - rfl
        exact Pass.unrecorded_work x ((productCourse full).count p n) (n + 1) (productCount full)
          (productSource full n) ((productSource full n).matrix full) completions
      obtain ⟨hend, -⟩ := walk_related (s := Pass.start .meetInTheMiddle (s, log) polls)
        (t := Pass.start .meetInTheMiddle s polls) hstep rfl
      rw [← visitProducts_eq_walk, ← visitProducts_eq_walk] at hend
      refine ⟨rfl, ?_, rfl⟩
      rw [Pass.unrecorded_report, hend, ← hend]
      rfl

end Search

end CliffordT
