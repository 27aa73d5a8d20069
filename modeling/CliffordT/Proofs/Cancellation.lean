import CliffordT.Proofs.Courses
import CliffordT.Run.Basic

/-!
# Runs whose caller has given up

A pass notices that it is interrupted only at its polls, and it polls only at every `checkEvery`-th step.  So a pass that
is interrupted from the beginning does what it would do otherwise, unless that takes `checkEvery` steps, and then it
stops there (`Pass.CutShort`).

A run of a caller that gave up before fails and writes nothing if one of its passes comes to its first poll.  If none
does, the run ends like any other and writes its artifacts (`run_of_canceled_caller`).
-/

namespace CliffordT

namespace Search

variable {M A E σ ε : Type}

/-! ### One step -/

/-- The same setup, with every poll finding the pass interrupted. -/
def Setup.interruptedBy (x : Setup M A E σ ε) (i : Interrupt) : Setup M A E σ ε := { x with poll := fun _ => some i }

namespace Pass

variable [GateAlgebra M] {x : Setup M A E σ ε} {p : Pass σ ε} {stage : Stage} {n total : Nat} {source : Source} {m : M}
  {tests : List (Completion M)}

/-- Tests do not ask whether the pass is interrupted. -/
private theorem tryCompletions_interruptedBy (i : Interrupt) (source : Source) (m : M) (cs : List (Completion M)) :
    p.tryCompletions (x.interruptedBy i) source m cs = p.tryCompletions x source m cs := by
  induction cs generalizing p with
  | nil => rfl
  | cons c cs ih =>
    rw [tryCompletions, tryCompletions]
    dsimp only
    rw [ih, ih]
    rfl

private theorem work_interruptedBy_of_not_due (i : Interrupt) (h : n % x.options.checkEvery ≠ 0) :
    p.work (x.interruptedBy i) n total source m tests = p.work x n total source m tests := by
  have hpoll : p.pollDue (x.interruptedBy i) n = p.pollDue x n := by
    rw [pollDue, pollDue, if_neg h, if_neg (show ¬ n % (x.interruptedBy i).options.checkEvery = 0 from h)]
  unfold work
  dsimp only
  rw [hpoll, tryCompletions_interruptedBy]
  rfl

private theorem work_interruptedBy_of_due (i : Interrupt) (h : n % x.options.checkEvery = 0) :
    p.work (x.interruptedBy i) n total source m tests = ({ p with interrupt := some i, polls := p.polls + 1 }, true) := by
  have hpoll : p.pollDue (x.interruptedBy i) n = { p with interrupt := some i, polls := p.polls + 1 } :=
    if_pos h
  unfold work
  dsimp only
  rw [hpoll]
  rfl

/-! ### A whole pass -/

/-- A pass that is not interrupted, and what becomes of it if every poll finds it interrupted. -/
structure CutShort (x : Setup M A E σ ε) (i : Interrupt) (stage : Stage) (p q : Pass σ ε) : Prop where
  stage_eq : p.stats.stage = stage
  interrupt : p.interrupt = none
  same : p.stats.steps < x.options.checkEvery → q = p
  stopped : x.options.checkEvery ≤ p.stats.steps → q.interrupt = some i ∧ q.stats.stage = stage

omit [GateAlgebra M] in
private theorem AtStep.cutShort {i : Interrupt} (h : p.AtStep stage n) (hn : n < x.options.checkEvery) :
    CutShort x i stage p p := by
  refine ⟨h.stage, h.interrupt, fun _ => rfl, fun hle => ?_⟩
  rw [h.steps] at hle
  omega

omit [GateAlgebra M] in
theorem CutShort.report {i : Interrupt} {p q : Pass σ ε} (h : CutShort x i stage p q) (done : Pass σ ε → Nat)
    (total : Nat) :
    CutShort x i stage (p.report x (done p) total) (q.report (x.interruptedBy i) (done q) total) where
  stage_eq := by simp [h.stage_eq]
  interrupt := by simp [h.interrupt]
  same hlt := by
    rw [stats_report] at hlt
    rw [h.same hlt]
    rfl
  stopped hle := by
    rw [stats_report] at hle
    simpa using h.stopped hle

section

variable {c : Course M σ ε} (hc : c.Counts stage) (hpoll : ∀ k, x.poll k = none)

include hc hpoll

/-- With every poll finding it interrupted a walk is the same, unless it takes as many steps as there are between
polls. -/
private theorem cutShort_walk (i : Interrupt) (h : p.AtStep stage n) (hn : n < x.options.checkEvery) (k : Nat) :
    let quiet := c.step x
    let cut := c.step (x.interruptedBy i)
    CutShort x i stage (walk quiet p (List.range' n k)).1 (walk cut p (List.range' n k)).1 ∧
      ((walk quiet p (List.range' n k)).1.stats.steps < x.options.checkEvery →
        walked cut p (List.range' n k) = walked quiet p (List.range' n k)) := by
  intro quiet cut
  induction k generalizing p n with
  | zero => exact ⟨h.cutShort hn, fun _ => rfl⟩
  | succ k ih =>
    have hfirst : (quiet p n).1.AtStep stage (n + 1) := atStep_step hc hpoll h
    have hnumber := hc.number h
    by_cases hdue : n + 1 < x.options.checkEvery
    · -- no poll is due, so the two steps are the same
      have hsame : cut p n = quiet p n :=
        work_interruptedBy_of_not_due i (by rw [hnumber, Nat.mod_eq_of_lt hdue]; omega)
      rw [List.range'_succ]
      cases hstop : (quiet p n).2 with
      | true =>
        have hstop' : (cut p n).2 = true := by rw [hsame, hstop]
        rw [walk_cons_of_stop hstop, walk_cons_of_stop hstop', hsame]
        exact ⟨hfirst.cutShort hdue, fun _ => by simp [walked, hstop, hstop']⟩
      | false =>
        have hgo : (cut p n).2 = false := by rw [hsame, hstop]
        obtain ⟨hcut, htaken⟩ := ih hfirst hdue
        rw [walk_cons_of_go hstop, walk_cons_of_go hgo, hsame]
        exact ⟨hcut, fun hlt => by simp [walked, hstop, hsame, htaken hlt]⟩
    · -- the first poll is due at this step, so the second walk ends here and the first one goes at least as far
      have hat : n + 1 = x.options.checkEvery := by omega
      have hstop : cut p n = ({ c.count p n with interrupt := some i, polls := (c.count p n).polls + 1 }, true) :=
        work_interruptedBy_of_due i (by rw [hnumber, hat, Nat.mod_self])
      have hend : (walk quiet p (List.range' n (k + 1))).1.AtStep stage
          (n + walked quiet p (List.range' n (k + 1))) := atStep_walk hc hpoll h (k + 1)
      have htaken : 1 ≤ walked quiet p (List.range' n (k + 1)) := by
        rw [List.range'_succ, walked]
        split <;> omega
      have hsteps := hend.steps
      have hcut : walk cut p (List.range' n (k + 1)) = ((cut p n).1, true) := by
        rw [List.range'_succ]
        exact walk_cons_of_stop (by rw [hstop])
      refine ⟨⟨hend.stage, hend.interrupt, fun hlt => ?_, fun _ => ?_⟩, fun hlt => ?_⟩
      · omega
      · rw [hcut, hstop]
        exact ⟨rfl, (hc.atStep h).stage⟩
      · omega

end

end Pass

/-! ### The two passes -/

section

variable [GateAlgebra M] [Storable M] {x : Setup M A E σ ε} {b : Buffer M} (hpoll : ∀ k, x.poll k = none)
  (hcheck : 0 < x.options.checkEvery)

include hpoll hcheck

/-- The first pass on a buffer with nothing computed. -/
theorem cutShort_exhaustive [Zero A] [Zero E] (hb : b.filled = 0) (s : σ) (polls : Nat) (i : Interrupt) :
    let quiet := exhaustive x b s polls
    let cut := exhaustive (x.interruptedBy i) b s polls
    Pass.CutShort x i .exhaustive quiet.2 cut.2 ∧
      (quiet.2.stats.steps < x.options.checkEvery → cut.1 = quiet.1) := by
  dsimp only
  have hstart : (seeded x s polls).AtStep .exhaustive 0 := ⟨rfl, rfl, rfl⟩
  cases hseed : x.sink.complete (x.sink.offer s seed) with
  | true =>
    have hcut := exhaustive_of_seed_complete (x := x.interruptedBy i) hseed b polls
    rw [exhaustive_of_seed_complete hseed, hcut]
    exact ⟨(hstart.cutShort hcheck).report (fun _ => 0) b.capacity, fun _ => rfl⟩
  | false =>
    have hcut := exhaustive_of_seed_not_complete (x := x.interruptedBy i) hseed b polls
    obtain ⟨hwalk, htaken⟩ := Pass.cutShort_walk (entryCourse_counts b) hpoll i hstart hcheck b.capacity
    have hpending : b.pending = List.range' 0 b.capacity := by rw [Buffer.pending, hb, Nat.sub_zero]
    rw [exhaustive_of_seed_not_complete hseed, hcut, Buffer.fill_snd, Buffer.fill_snd, Buffer.fill_fst,
      Buffer.fill_fst, hpending]
    refine ⟨hwalk.report (fun p => p.stats.visited) b.capacity, fun hlt => ?_⟩
    rw [Pass.stats_report] at hlt
    exact congrArg (fun k => Buffer.step^[k] b) (htaken hlt)

/-- The second pass, on any buffer. -/
private theorem cutShort_meetInTheMiddle (s : σ) (polls : Nat) (i : Interrupt) :
    let quiet := meetInTheMiddle x b s polls
    let cut := meetInTheMiddle (x.interruptedBy i) b s polls
    Pass.CutShort x i .meetInTheMiddle quiet.2.1 cut.2.1 ∧ cut.1 = quiet.1 := by
  dsimp only
  have hstart : (Pass.start .meetInTheMiddle s polls : Pass σ ε).AtStep .meetInTheMiddle 0 := ⟨rfl, rfl, rfl⟩
  unfold meetInTheMiddle
  dsimp only
  rw [show (x.interruptedBy i).options = x.options from rfl, show (x.interruptedBy i).sink = x.sink from rfl]
  split
  · exact ⟨hstart.cutShort hcheck, rfl⟩
  · generalize (if b.full = true then b else b.fillAll) = full
    split
    · exact ⟨Pass.AtStep.cutShort ⟨rfl, rfl, rfl⟩ hcheck, rfl⟩
    · obtain ⟨hwalk, -⟩ := Pass.cutShort_walk (productCourse_counts full) hpoll i hstart hcheck
        (productCount full)
      rw [visitProducts_eq_walk, visitProducts_eq_walk]
      exact ⟨hwalk.report (fun p => p.stats.products) (productCount full), rfl⟩

end

section

variable [GateAlgebra M] [Storable M] {x : Setup M A E σ ε} {b : Buffer M} (hpoll : ∀ k, x.poll k = none)

include hpoll

private theorem visited_exhaustive_le [Zero A] [Zero E] (hb : b.filled = 0) (s : σ) (polls : Nat) :
    (exhaustive x b s polls).2.stats.visited ≤ b.capacity := by
  have hstart : (seeded x s polls).AtStep .exhaustive 0 := ⟨rfl, rfl, rfl⟩
  cases hseed : x.sink.complete (x.sink.offer s seed) with
  | true =>
    rw [exhaustive_of_seed_complete hseed, Pass.stats_report]
    exact Nat.zero_le _
  | false =>
    have hend := Pass.atStep_walk (entryCourse_counts b) hpoll hstart b.capacity
    have hle := Pass.steps_walk_le (entryCourse_counts b) hpoll hstart b.capacity
    rw [Stats.steps, hend.stage, Nat.zero_add] at hle
    rw [exhaustive_of_seed_not_complete hseed, Pass.stats_report, Buffer.fill_snd, Buffer.pending, hb, Nat.sub_zero]
    exact hle

private theorem products_meetInTheMiddle_le (s : σ) (polls : Nat) :
    (meetInTheMiddle x b s polls).2.1.stats.products ≤ productCount b := by
  have hstart : (Pass.start .meetInTheMiddle s polls : Pass σ ε).AtStep .meetInTheMiddle 0 := ⟨rfl, rfl, rfl⟩
  unfold meetInTheMiddle
  dsimp only
  split
  · exact Nat.zero_le _
  · have hcount : productCount (if b.full = true then b else b.fillAll) = productCount b := by
      split
      · rfl
      · simp [productCount, longestCount]
    generalize (if b.full = true then b else b.fillAll) = full at hcount
    split
    · exact Nat.zero_le _
    · have hend := Pass.atStep_walk (productCourse_counts full) hpoll hstart (productCount full)
      have hle := Pass.steps_walk_le (productCourse_counts full) hpoll hstart (productCount full)
      rw [Stats.steps, hend.stage, Nat.zero_add] at hle
      rw [Pass.stats_report, visitProducts_eq_walk, ← hcount]
      exact hle

end

private theorem depth_exhaustive [GateAlgebra M] [Storable M] [Zero A] [Zero E] (x : Setup M A E σ ε) (b : Buffer M)
    (s : σ) (polls : Nat) : (exhaustive x b s polls).1.depth = b.depth := by
  cases hseed : x.sink.complete (x.sink.offer s seed) with
  | true => rw [exhaustive_of_seed_complete hseed]
  | false =>
    rw [exhaustive_of_seed_not_complete hseed]
    show (b.fill _ _).1.depth = b.depth
    rw [Buffer.fill_fst, Buffer.depth_iterate]

end Search

/-! ### Runs -/

theorem Config.validate_of_isOk {c : Config} (h : c.validate.isOk = true) : c.validate = .ok () := by
  cases hvalid : c.validate with
  | ok u => rfl
  | error e =>
    rw [hvalid] at h
    cases h

namespace Run

open Search (Stats Interrupt)

/-- Nobody interrupts the run. -/
def Supervision.undisturbed : Supervision := ⟨fun _ => none, fun _ => none⟩

/-- The caller gave up before the run began. -/
def Supervision.canceled : Supervision := ⟨fun _ => some .canceled, fun _ => some .canceled⟩

/-- Parameters that meet all conditions are good for a run. -/
theorem start_of_parsedPrecision {c : Config} (h : c.validate = .ok ()) {precision : Precision}
    (hprecision : c.parsedPrecision = .ok precision) :
    start c = .ok (State.start c (Buffer.empty c.depth.toNat precision) (Table.empty c.points.toNat) c.epsilon
      { Search.Options.default with progressEvery := c.progressEvery.toNat }) := by
  have hvalid := h
  unfold Config.validate at hvalid
  split at hvalid <;> [cases hvalid; skip]
  rename_i hpoints
  split at hvalid <;> [cases hvalid; skip]
  rename_i hepsilon
  split at hvalid <;> [cases hvalid; skip]
  rename_i hdepth
  split at hvalid <;> [cases hvalid; skip]
  rename_i hprogress
  have htable : (Table.new c.points : Except TableError DoubleTable) = .ok (Table.empty c.points.toNat) := by
    rw [Table.new, if_neg (by omega), if_neg (by omega)]
  have hbuffer : (Buffer.new c.depth precision : Except DepthError (Buffer Matrix)) =
      .ok (Buffer.empty c.depth.toNat precision) := by
    rw [Buffer.new, if_neg hdepth]
  have hchecked : Search.checkEpsilon c.epsilon = .ok c.epsilon := by
    rw [Search.checkEpsilon, if_neg]
    simpa [Config.epsilonFits] using hepsilon
  have hoptions : Search.Options.default.withProgressEvery c.progressEvery =
      .ok { Search.Options.default with progressEvery := c.progressEvery.toNat } := by
    rw [Search.Options.withProgressEvery, if_neg hprogress]
  simp only [start, prepare, h, hprecision, htable, hbuffer, hchecked, hoptions, Except.mapError, bind, Except.bind,
    pure, Except.pure]

theorem exists_parsedPrecision {c : Config} (h : c.validate = .ok ()) :
    ∃ precision, c.parsedPrecision = .ok precision := by
  unfold Config.validate at h
  -- the first five conditions do not look at the precision
  iterate 5 split at h <;> [cases h; skip]
  split at h <;> [cases h; skip]
  rename_i precision hprecision
  exact ⟨precision, hprecision⟩

theorem start_of_validate {c : Config} (h : c.validate = .ok ()) :
    ∃ precision, start c = .ok (State.start c (Buffer.empty c.depth.toNat precision) (Table.empty c.points.toNat)
      c.epsilon { Search.Options.default with progressEvery := c.progressEvery.toNat }) := by
  obtain ⟨precision, hprecision⟩ := exists_parsedPrecision h
  exact ⟨precision, start_of_parsedPrecision h hprecision⟩

/-- The end of a pass that was not interrupted is the same for every run. -/
private theorem State.after_of_not_interrupted {p : Search.Pass DoubleTable Log.Record} (h : p.interrupt = none)
    (sup sup' : Supervision) (s : State) (b : Buffer Matrix) (finished : String) :
    s.after sup b p finished = s.after sup' b p finished := by
  unfold State.after
  rw [h]

/-- A pass that was interrupted by the caller fails the run. -/
theorem State.error_after_of_not_budgetSpent {p : Search.Pass DoubleTable Log.Record} {i : Interrupt}
    (h : p.interrupt = some i) {sup : Supervision} (hspent : budgetSpent sup p.polls i = false) (s : State)
    (b : Buffer Matrix) (finished : String) :
    (s.after sup b p finished).error = some (.interrupted p.stats.stage i) := by
  simp [State.after, h, hspent]

/-- What the end of a pass can change. -/
private theorem State.after_eq (sup : Supervision) (s : State) (b : Buffer Matrix)
    (p : Search.Pass DoubleTable Log.Record) (finished : String) :
    ∃ logs error timedOut, s.after sup b p finished =
      { s with
        buffer := b, polls := p.polls, logs := logs, error := error
        result := { s.result with table := p.sink, timedOut := timedOut } } := by
  unfold State.after
  dsimp only
  split
  · exact ⟨_, _, _, rfl⟩
  · split <;> exact ⟨_, _, _, rfl⟩

section

variable (sup : Supervision) (s : State) (b : Buffer Matrix) (p : Search.Pass DoubleTable Log.Record)
  (finished : String)

@[simp] theorem State.exhaustive_after :
    (s.after sup b p finished).result.exhaustive = s.result.exhaustive := by
  obtain ⟨logs, error, timedOut, hafter⟩ := State.after_eq sup s b p finished
  rw [hafter]

@[simp] theorem State.meet_after : (s.after sup b p finished).result.meet = s.result.meet := by
  obtain ⟨logs, error, timedOut, hafter⟩ := State.after_eq sup s b p finished
  rw [hafter]

@[simp] theorem State.buffer_after : (s.after sup b p finished).buffer = b := by
  obtain ⟨logs, error, timedOut, hafter⟩ := State.after_eq sup s b p finished
  rw [hafter]

@[simp] theorem State.options_after : (s.after sup b p finished).options = s.options := by
  obtain ⟨logs, error, timedOut, hafter⟩ := State.after_eq sup s b p finished
  rw [hafter]

@[simp] theorem State.table_after : (s.after sup b p finished).result.table = p.sink := by
  obtain ⟨logs, error, timedOut, hafter⟩ := State.after_eq sup s b p finished
  rw [hafter]

@[simp] theorem State.config_after : (s.after sup b p finished).result.config = s.result.config := by
  obtain ⟨logs, error, timedOut, hafter⟩ := State.after_eq sup s b p finished
  rw [hafter]

@[simp] theorem State.epsilon_after : (s.after sup b p finished).epsilon = s.epsilon := by
  obtain ⟨logs, error, timedOut, hafter⟩ := State.after_eq sup s b p finished
  rw [hafter]

end

theorem State.error_after_of_not_interrupted {p : Search.Pass DoubleTable Log.Record} (h : p.interrupt = none)
    (sup : Supervision) (s : State) (b : Buffer Matrix) (finished : String) :
    (s.after sup b p finished).error = s.error := by
  unfold State.after
  rw [h]
  rfl

theorem secondPass_of_needed {s : State} (hneeds : s.needsMeet = true) (hskip : s.result.config.skipMeet = false)
    (sup : Supervision) :
    let r := Search.meetInTheMiddle (s.setup sup) s.buffer s.result.table s.polls
    secondPass sup s = State.after sup { s with result := { s.result with meet := some r.2.1.stats } } r.1 r.2.1
      "meet-in-the-middle stage finished" := by
  simp [secondPass, hneeds, hskip]

/-- A second pass that is left out. -/
theorem secondPass_of_not_needed {s : State} (h : ¬ (s.needsMeet = true ∧ s.result.config.skipMeet = false)) :
    ∃ s' : State, (∀ sup, secondPass sup s = s') ∧ s'.result = s.result ∧ s'.error = s.error := by
  cases hneeds : s.needsMeet with
  | false => exact ⟨s, fun sup => by simp [secondPass, hneeds], rfl, rfl⟩
  | true =>
    have hskip : s.result.config.skipMeet = true := by simpa [hneeds] using h
    exact ⟨s.log .info "meet-in-the-middle skipped" [], fun sup => by simp [secondPass, hneeds, hskip], rfl, rfl⟩

/-- How many steps a pass makes up to its first poll. -/
def firstPoll : Nat := Search.Options.default.checkEvery

section

variable {s : State} (hcheck : s.options.checkEvery = firstPoll)

include hcheck

/-- The first pass of a run whose caller gave up. -/
private theorem firstPass_canceled (hb : s.buffer.filled = 0) :
    let quiet := firstPass .undisturbed s
    quiet.error = s.error ∧
      (quiet.result.exhaustive.visited < firstPoll → firstPass .canceled s = quiet) ∧
      (firstPoll ≤ quiet.result.exhaustive.visited →
        (firstPass .canceled s).error = some (.interrupted .exhaustive .canceled)) := by
  have hpoll : ∀ k, (s.setup .undisturbed).poll k = none := fun _ => rfl
  have hevery : (s.setup .undisturbed).options.checkEvery = firstPoll := hcheck
  obtain ⟨hcut, hbuffer⟩ := Search.cutShort_exhaustive hpoll (by rw [hevery]; decide) hb s.result.table s.polls .canceled
  have hsteps : (Search.exhaustive (s.setup .undisturbed) s.buffer s.result.table s.polls).2.stats.steps =
      (firstPass .undisturbed s).result.exhaustive.visited := by
    rw [firstPass, State.exhaustive_after, Stats.steps, hcut.stage_eq]
  refine ⟨State.error_after_of_not_interrupted hcut.interrupt .., fun hlt => ?_, fun hle => ?_⟩
  · rw [← hsteps, ← hevery] at hlt
    have hpass : Search.exhaustive (s.setup .canceled) s.buffer s.result.table s.polls =
        Search.exhaustive (s.setup .undisturbed) s.buffer s.result.table s.polls :=
      Prod.ext (hbuffer hlt) (hcut.same hlt)
    rw [firstPass, hpass]
    exact State.after_of_not_interrupted hcut.interrupt ..
  · rw [← hsteps, ← hevery] at hle
    obtain ⟨hstop, hstage⟩ := hcut.stopped hle
    rw [← hstage]
    exact State.error_after_of_not_budgetSpent hstop rfl ..

/-- The second pass of a run whose caller gave up, if that was not noticed before. -/
private theorem secondPass_canceled (hmeet : s.result.meet = none) :
    let quiet := secondPass .undisturbed s
    quiet.error = s.error ∧ quiet.result.exhaustive = s.result.exhaustive ∧
      ((∀ m, quiet.result.meet = some m → m.products < firstPoll) → secondPass .canceled s = quiet) ∧
      (∀ m, quiet.result.meet = some m → firstPoll ≤ m.products →
        (secondPass .canceled s).error = some (.interrupted .meetInTheMiddle .canceled)) := by
  dsimp only
  by_cases hneeds : s.needsMeet = true ∧ s.result.config.skipMeet = false
  · have hpoll : ∀ k, (s.setup .undisturbed).poll k = none := fun _ => rfl
    have hevery : (s.setup .undisturbed).options.checkEvery = firstPoll := hcheck
    obtain ⟨hcut, hbuffer⟩ := Search.cutShort_meetInTheMiddle hpoll (by rw [hevery]; decide) (b := s.buffer)
      s.result.table s.polls .canceled
    have hsteps : (Search.meetInTheMiddle (s.setup .undisturbed) s.buffer s.result.table s.polls).2.1.stats.steps =
        (Search.meetInTheMiddle (s.setup .undisturbed) s.buffer s.result.table s.polls).2.1.stats.products := by
      rw [Stats.steps, hcut.stage_eq]
    rw [secondPass_of_needed hneeds.1 hneeds.2, secondPass_of_needed hneeds.1 hneeds.2, State.exhaustive_after,
      State.meet_after, State.error_after_of_not_interrupted hcut.interrupt]
    refine ⟨rfl, rfl, fun hlt => ?_, fun m hm hle => ?_⟩
    · have hlt := hlt _ rfl
      rw [← hsteps, ← hevery] at hlt
      rw [show s.setup .canceled = (s.setup .undisturbed).interruptedBy .canceled from rfl, hcut.same hlt, hbuffer]
      exact State.after_of_not_interrupted hcut.interrupt ..
    · cases hm
      rw [← hsteps, ← hevery] at hle
      obtain ⟨hstop, hstage⟩ := hcut.stopped hle
      rw [← hstage]
      exact State.error_after_of_not_budgetSpent hstop rfl ..
  · obtain ⟨s', hleft, hresult, herror⟩ := secondPass_of_not_needed hneeds
    rw [hleft, hleft, hresult]
    refine ⟨herror, rfl, fun _ => rfl, fun m hm => ?_⟩
    rw [hmeet] at hm
    cases hm

end

/-- A buffer of depth at most 6 has not enough entries for a poll. -/
private theorem visited_firstPass_lt {s : State} (hb : s.buffer.filled = 0) (hdepth : s.buffer.depth ≤ 6) :
    (firstPass .undisturbed s).result.exhaustive.visited < firstPoll := by
  have hle := Search.visited_exhaustive_le (x := s.setup .undisturbed) (fun _ => rfl) hb s.result.table s.polls
  have hcapacity : ∀ d ≤ 6, Index.start (d + 1) < firstPoll := by decide
  rw [firstPass, State.exhaustive_after]
  exact Nat.lt_of_le_of_lt hle (hcapacity _ hdepth)

/-- It does not make enough products either. -/
private theorem products_secondPass_lt {s : State} (hdepth : s.buffer.depth ≤ 6) (hmeet : s.result.meet = none)
    (m : Stats) (hm : (secondPass .undisturbed s).result.meet = some m) : m.products < firstPoll := by
  by_cases hneeds : s.needsMeet = true ∧ s.result.config.skipMeet = false
  · have hle := Search.products_meetInTheMiddle_le (x := s.setup .undisturbed) (b := s.buffer) (fun _ => rfl)
      s.result.table s.polls
    have hcount : ∀ d ≤ 6, Index.start d * (Index.start (d + 1) - Index.start d) < firstPoll := by decide
    rw [secondPass_of_needed hneeds.1 hneeds.2, State.meet_after] at hm
    cases hm
    exact Nat.lt_of_le_of_lt hle (hcount _ hdepth)
  · obtain ⟨s', hleft, hresult, -⟩ := secondPass_of_not_needed hneeds
    rw [hleft, hresult, hmeet] at hm
    cases hm

/-! ### What a run leaves -/

theorem conclude_of_error {s : State} {e : RunError} (h : s.error = some e) (times : Times) (fs : Files) :
    (conclude times fs s.verified).error = some e ∧ (conclude times fs s.verified).files = fs := by
  have hsome : s.error.isSome = true := by rw [h]; rfl
  rw [State.verified, if_pos hsome, conclude, if_pos hsome]
  exact ⟨h, rfl⟩

/-- The run did not fail for an interruption. -/
def NotInterrupted (error : Option RunError) : Prop := ∀ stage i, error ≠ some (.interrupted stage i)

private theorem notInterrupted_artifact {s : State} (h : NotInterrupted s.error) (path : RawText) (level : Log.Level)
    (message : String) (write : Files → Except CliffordT.Artifact.Setback Files) (fs : Files) :
    NotInterrupted (artifact path level message write s fs).1.error := by
  unfold artifact
  split
  · exact h
  · split
    · rintro stage i ⟨⟩
    · exact h

private theorem notInterrupted_writeArtifacts {s : State} (h : NotInterrupted s.error) (times : Times) (fs : Files) :
    NotInterrupted (writeArtifacts times s fs).1.error := by
  unfold writeArtifacts
  generalize Artifact.all = as
  induction as generalizing s fs with
  | nil => exact h
  | cons a as ih =>
    refine ih ?_ _
    cases a
    · exact notInterrupted_artifact h _ _ _ _ _
    · exact notInterrupted_artifact h _ _ _ _ _
    · exact notInterrupted_artifact h _ _ _ _ _

private theorem notInterrupted_conclude {s : State} (h : s.error = none) (times : Times) (fs : Files) :
    NotInterrupted (conclude times fs s).error := by
  have hstart : NotInterrupted s.error := by
    rw [h]
    rintro stage i ⟨⟩
  unfold conclude
  rw [if_neg (by simp [h])]
  show NotInterrupted (State.noteEnd times (writeArtifacts times s fs).1).error
  unfold State.noteEnd
  dsimp only
  split <;> exact notInterrupted_writeArtifacts hstart times fs

/-- What expanding and verifying can change. -/
theorem State.verified_eq (s : State) :
    ∃ logs full canonical expanded, s.verified =
      { s with logs := logs, result := { s.result with full := full, canonical := canonical, expanded := expanded } } := by
  unfold State.verified State.noteMissing
  split
  · exact ⟨_, _, _, _, rfl⟩
  · dsimp only
    split <;> exact ⟨_, _, _, _, rfl⟩

/-- A run whose caller gave up before it began.  Let `s` be where the search ends if nobody interrupts it.  If its first
pass visits `firstPoll` entries, the run fails in that pass and leaves the files as they were; otherwise, if its second
pass forms `firstPoll` products, it fails there and leaves the files as they were.  But if it does neither, as is the
case for every depth up to 6, the run leaves what it leaves when nobody interrupts it, artifacts and all. -/
theorem run_of_canceled_caller (c : Config) (h : c.validate = .ok ()) (times : Times) (fs : Files) :
    ∃ s, search c .undisturbed = .ok s ∧
      let o := run c .canceled times fs
      (firstPoll ≤ s.result.exhaustive.visited →
        o.error = some (.interrupted .exhaustive .canceled) ∧ o.files = fs) ∧
      (s.result.exhaustive.visited < firstPoll → ∀ m, s.result.meet = some m → firstPoll ≤ m.products →
        o.error = some (.interrupted .meetInTheMiddle .canceled) ∧ o.files = fs) ∧
      (s.result.exhaustive.visited < firstPoll → (∀ m, s.result.meet = some m → m.products < firstPoll) →
        o = run c .undisturbed times fs ∧ NotInterrupted o.error) ∧
      (c.depth ≤ 6 → s.result.exhaustive.visited < firstPoll ∧ ∀ m, s.result.meet = some m → m.products < firstPoll) := by
  obtain ⟨precision, hstart⟩ := start_of_validate h
  generalize hs₀ : State.start c _ _ _ _ = s₀ at hstart
  have hcheck : s₀.options.checkEvery = firstPoll := by rw [← hs₀]; rfl
  have hfilled : s₀.buffer.filled = 0 := by rw [← hs₀]; rfl
  have hdepth : s₀.buffer.depth = c.depth.toNat := by rw [← hs₀]; rfl
  have hmeet : s₀.result.meet = none := by rw [← hs₀]; rfl
  have herror : s₀.error = none := by rw [← hs₀]; rfl
  have hrun (sup : Supervision) :
      run c sup times fs = conclude times fs (secondPass sup (firstPass sup s₀)).verified := by
    rw [run, search, hstart]
    rfl
  obtain ⟨hquiet, hsame, hstop⟩ := firstPass_canceled hcheck hfilled
  have hcheck' : (firstPass .undisturbed s₀).options.checkEvery = firstPoll := by
    rw [firstPass, State.options_after]
    exact hcheck
  have hmeet' : (firstPass .undisturbed s₀).result.meet = none := by
    rw [firstPass, State.meet_after]
    exact hmeet
  obtain ⟨hquiet', hfirst, hsame', hstop'⟩ := secondPass_canceled hcheck' hmeet'
  refine ⟨(secondPass .undisturbed (firstPass .undisturbed s₀)).verified, by rw [search, hstart]; rfl, ?_⟩
  obtain ⟨logs, full, canonical, expanded, hverified⟩ :=
    State.verified_eq (secondPass .undisturbed (firstPass .undisturbed s₀))
  dsimp only
  rw [hverified, hfirst, hrun]
  refine ⟨fun hle => ?_, fun hlt m hm hle => ?_, fun hlt hlt' => ?_, fun hsmall => ⟨?_, ?_⟩⟩
  · have hfailed := hstop hle
    obtain ⟨s', hleft, -, herror'⟩ := secondPass_of_not_needed (s := firstPass .canceled s₀)
      (by simp [State.needsMeet, hfailed])
    rw [hleft]
    exact conclude_of_error (herror'.trans hfailed) times fs
  · rw [hsame hlt]
    exact conclude_of_error (hstop' m hm hle) times fs
  · rw [hrun, hsame hlt, hsame' hlt']
    refine ⟨rfl, notInterrupted_conclude ?_ times fs⟩
    rw [hverified]
    exact hquiet'.trans (hquiet.trans herror)
  · exact visited_firstPass_lt hfilled (by omega)
  · refine products_secondPass_lt ?_ hmeet'
    rw [firstPass, State.buffer_after]
    show (Search.exhaustive (s₀.setup .undisturbed) s₀.buffer s₀.result.table s₀.polls).1.depth ≤ 6
    rw [Search.depth_exhaustive]
    omega

/-- A circle of 16 slots and a buffer of depth 1, with the table as the only artifact. -/
theorem run_of_canceled_caller_depth_one :
    let c : Config := { Config.default with points := 16, depth := 1, diagnostics := "" }
    let times : Times := ⟨⟨0⟩, ⟨0⟩, ⟨0⟩⟩
    c.validate = .ok () ∧ run c .canceled times .empty = run c .undisturbed times .empty := by
  intro c times
  have hvalid : c.validate = .ok () := Config.validate_of_isOk (by decide +kernel)
  obtain ⟨s, -, -, -, hrun, hsmall⟩ := run_of_canceled_caller c hvalid times .empty
  obtain ⟨hfirst, hsecond⟩ := hsmall (by decide)
  exact ⟨hvalid, (hrun hfirst hsecond).1⟩

/-- The caller gave up, but the run does not fail and leaves the table. -/
theorem canceled_run_leaves_table :
    let c : Config := { Config.default with points := 16, depth := 1, diagnostics := "" }
    let o := run c .canceled ⟨⟨0⟩, ⟨0⟩, ⟨0⟩⟩ .empty
    c.validate = .ok () ∧ o.error.isNone = true ∧ o.files ≠ .empty := by
  intro c o
  exact ⟨Config.validate_of_isOk (by decide +kernel), by decide +kernel, by decide +kernel⟩

end Run

end CliffordT
