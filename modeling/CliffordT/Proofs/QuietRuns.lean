import CliffordT.Proofs.RunEnds
import CliffordT.Proofs.UnwatchedPasses

/-!
# Settings that only watch a run

The interval of progress reports, the level and the place of the log and the strictness of the judgement have no part in
what a run finds.  A run without them, and without the records and the polls made so far, is `State.quiet`.  As long as
nobody interrupts the run, the quiet state after a stage depends only on the quiet state before it (`quiet_firstPass`,
`quiet_secondPass`).  So runs whose parameters differ only in these settings find the same and write the same
(`watching_changes_nothing`).

The metrics tell how long things took, so two runs may leave different texts there.
-/

namespace CliffordT

/-- The same parameters with fixed settings for reports, log and strictness. -/
def Config.quiet (c : Config) : Config := { c with progressEvery := 1, logLevel := "", logFile := "", strict := false }

namespace Run

def Result.quiet (r : Result) : Result := { r with config := r.config.quiet }

/-- A run without what only watches it. -/
def State.quiet (s : State) : State :=
  { s with
    result := s.result.quiet
    options := { s.options with progressEvery := 0, checkEvery := 0 }
    polls := 0
    logs := [] }

private theorem State.error_quiet (s : State) : s.quiet.error = s.error := rfl

private theorem State.checked_of_quiet {s s' : State} (h : s.quiet = s'.quiet) :
    s.result.checked.quiet = s'.result.checked.quiet :=
  congrArg (fun s : State => s.result.checked) h

/-- What the passes of a run are given if nobody watches them. -/
def State.quietSetup (s : State) : Search.Setup Matrix Float Float DoubleTable Unit := (s.setup .undisturbed).unwatched

/-! ### The passes -/

private theorem State.quiet_after {p : Search.Pass DoubleTable Log.Record} (h : p.interrupt = none) (sup : Supervision)
    (s : State) (b : Buffer Matrix) (finished : String) :
    (s.after sup b p finished).quiet =
      { s.quiet with buffer := b, result := { s.quiet.result with table := p.sink } } := by
  unfold State.after
  rw [h]
  rfl

section

variable {sup : Supervision} (hpoll : ∀ k, sup.poll k = none)

include hpoll

theorem quiet_firstPass (s : State) :
    let r := Search.exhaustive s.quiet.quietSetup s.quiet.buffer s.quiet.result.table 0
    (firstPass sup s).quiet =
      { s.quiet with
        buffer := r.1
        result := { s.quiet.result with exhaustive := r.2.stats, table := r.2.sink } } := by
  obtain ⟨hbuffer, hpass⟩ := Search.exhaustive_unwatched (x := s.setup sup) hpoll s.buffer s.result.table s.polls
  rw [firstPass, State.quiet_after hpass.interrupt, hbuffer, hpass.stats, hpass.sink]
  rfl

/-- The second pass, if there is one. -/
theorem quiet_secondPass (s : State) :
    let r := Search.meetInTheMiddle s.quiet.quietSetup s.quiet.buffer s.quiet.result.table 0
    (secondPass sup s).quiet =
      if s.quiet.needsMeet = true ∧ s.quiet.result.config.skipMeet = false then
        { s.quiet with
          buffer := r.1
          result := { s.quiet.result with meet := some r.2.1.stats, table := r.2.1.sink } }
      else s.quiet := by
  intro r
  by_cases hneeds : s.quiet.needsMeet = true ∧ s.quiet.result.config.skipMeet = false
  · have hmeet : s.needsMeet = true := hneeds.1
    have hskip : s.result.config.skipMeet = false := hneeds.2
    obtain ⟨hbuffer, hpass, -⟩ :=
      Search.meetInTheMiddle_unwatched (x := s.setup sup) hpoll s.buffer s.result.table s.polls
    rw [if_pos hneeds, secondPass_of_needed hmeet hskip, State.quiet_after hpass.interrupt, hbuffer, hpass.stats,
      hpass.sink]
    rfl
  · have hnot : ¬ (s.needsMeet = true ∧ s.result.config.skipMeet = false) := hneeds
    rw [if_neg hneeds]
    cases hmeet : s.needsMeet with
    | false => simp [secondPass, hmeet]
    | true =>
      have hskip : s.result.config.skipMeet = true := by simpa [hmeet] using hnot
      simp only [secondPass, hmeet, hskip]
      rfl

/-- Nothing interrupts the passes, so they do not fail. -/
private theorem error_quiet_passes (s : State) : (secondPass sup (firstPass sup s)).error = s.error := by
  have hfirst : (firstPass sup s).error = s.error := by
    rw [← State.error_quiet, quiet_firstPass hpoll]
    rfl
  rw [← State.error_quiet, quiet_secondPass hpoll]
  split
  · exact hfirst
  · exact hfirst

end

/-- Where the passes end depends only on the quiet state. -/
private theorem quiet_passes_congr {s s' : State} {sup sup' : Supervision} (hpoll : ∀ k, sup.poll k = none)
    (hpoll' : ∀ k, sup'.poll k = none) (h : s.quiet = s'.quiet) :
    (secondPass sup (firstPass sup s)).quiet = (secondPass sup' (firstPass sup' s')).quiet := by
  rw [quiet_secondPass hpoll, quiet_secondPass hpoll', quiet_firstPass hpoll, quiet_firstPass hpoll', h]

/-! ### The artifacts -/

private theorem Result.eq_of_quiet {r r' : Result} (h : r.quiet = r'.quiet) : r' = { r with config := r'.config } := by
  obtain ⟨⟩ := r
  obtain ⟨⟩ := r'
  simp only [Result.quiet, Result.mk.injEq] at h
  obtain ⟨-, rfl, rfl, rfl, rfl, rfl, rfl, rfl, rfl⟩ := h
  rfl

private theorem Artifact.write_quiet (times : Times) (r : Result) (a : Artifact) (fs : Files) :
    a.write times r.quiet fs = a.write times r fs := by
  cases a <;> rfl

private theorem Result.saved_quiet (times : Times) (r : Result) (as : List Artifact) (fs : Files) :
    r.quiet.saved times as fs = r.saved times as fs := by
  induction as generalizing fs with
  | nil => rfl
  | cons a as ih =>
    have hpath : a.path r.quiet.config = a.path r.config := by cases a <;> rfl
    rw [Result.saved, Result.saved, hpath, Artifact.write_quiet]
    simp only [ih]

/-- The same failure, if any, and the same files but for the metrics of these parameters. -/
def SavedAlike (c : Config) (x y : Option ArtifactError × Files) : Prop :=
  y.1 = x.1 ∧ ∀ path, (∀ q, x.2.target? c.metricsFile = some q → x.2.target? path ≠ some q) →
    y.2.read path = x.2.read path

theorem SavedAlike.refl (c : Config) (x : Option ArtifactError × Files) : SavedAlike c x x := ⟨rfl, fun _ _ => rfl⟩

section

variable (times times' : Times) (r : Result)

/-- Only the metrics look at the time. -/
theorem SavedAlike.cons {a : Artifact} (ha : a ≠ .metrics) {as : List Artifact}
    (h : ∀ fs, SavedAlike r.config (r.saved times as fs) (r.saved times' as fs)) (fs : Files) :
    SavedAlike r.config (r.saved times (a :: as) fs) (r.saved times' (a :: as) fs) := by
  have hwrite : a.write times' r fs = a.write times r fs := by
    cases a with
    | diagnostics => rfl
    | table => rfl
    | metrics => cases ha rfl
  rw [Result.saved, Result.saved, hwrite]
  split
  · exact h fs
  · split
    · rename_i fs' _
      exact h fs'
    · exact .refl ..

private theorem savedAlike_metrics (fs : Files) :
    SavedAlike r.config (r.saved times [.metrics] fs) (r.saved times' [.metrics] fs) := by
  simp only [Result.saved, Artifact.write]
  by_cases hpath : (Artifact.path r.config .metrics).isEmpty = true
  · rw [if_pos hpath, if_pos hpath]
    exact .refl ..
  · rw [if_neg hpath, if_neg hpath]
    rcases CliffordT.Artifact.writeMetrics_other fs r.config.metricsFile (r.metrics times) (r.metrics times') with
      ⟨e, hwrite, hwrite'⟩ | ⟨fs₁, fs₂, q, hwrite, hwrite', hsame, htarget⟩
    · rw [hwrite, hwrite']
      exact .refl ..
    · rw [hwrite, hwrite']
      exact ⟨rfl, fun path hpath => hsame.read (hpath q htarget)⟩

private theorem savedAlike_all (fs : Files) :
    SavedAlike r.config (r.saved times Artifact.all fs) (r.saved times' Artifact.all fs) :=
  .cons times times' r (by simp) (.cons times times' r (by simp) (savedAlike_metrics times times' r)) fs

end

/-! ### Runs -/

private theorem run_concludes {c : Config} {s : State} (h : start c = .ok s) {sup : Supervision}
    (hpoll : ∀ k, sup.poll k = none) (times : Times) (fs : Files) :
    (run c sup times fs).Concludes times fs (secondPass sup (firstPass sup s)).result := by
  rw [run_of_start h]
  exact concludes_of_no_error ((error_quiet_passes hpoll s).trans (eq_of_start h).1) times fs

private theorem config_passes (sup : Supervision) (s : State) :
    (secondPass sup (firstPass sup s)).result.config = s.result.config :=
  (run_passes sup s).choose_spec.2

/-- What only watches changes nothing.

Take two sets of parameters that meet all conditions and differ only in the interval of reports, the level and place of
the log and the strictness, and let nobody interrupt the runs.  Both find the same result, with the statistics of both
passes, all words and both reports, and fail alike if an artifact cannot be written.  If they take the same time, they
leave the same files; otherwise, whatever path does not lead to the metrics is read alike.

Two setups of a search that differ only in the observer and the intervals, and whose polls find no interruption, leave
the same buffer, sink and counts, also if the sink writes down what it is offered. -/
theorem watching_changes_nothing :
    (∀ (c : Config) (n : Int) (level file : RawText) (strict : Bool) (sup sup' : Supervision) (times times' : Times)
        (fs : Files),
      let c' : Config := { c with progressEvery := n, logLevel := level, logFile := file, strict := strict }
      c.validate = .ok () → c'.validate = .ok () → (∀ k, sup.poll k = none) → (∀ k, sup'.poll k = none) →
      let o := run c sup times fs
      let o' := run c' sup' times' fs
      (∃ r, o.result = some r ∧ o'.result = some { r with config := c' }) ∧ o'.error = o.error ∧
        (times' = times → o'.files = o.files) ∧
        ∀ path, (∀ q, o.files.target? c.metricsFile = some q → o.files.target? path ≠ some q) →
          o'.files.read path = o.files.read path) ∧
    ∀ {M A E σ ε ε' : Type} [GateAlgebra M] [Storable M] [Zero A] [Zero E] (x : Search.Setup M A E σ ε) (n k : Nat)
        (observe : Option (Search.Progress → σ → ε')) (poll : Nat → Option Search.Interrupt),
      (∀ j, x.poll j = none) → (∀ j, poll j = none) →
      let y : Search.Setup M A E σ ε' :=
        ⟨x.probe, x.sink, { x.options with progressEvery := n, checkEvery := k }, observe, poll⟩
      x.Alike y ∧ x.recording.Alike y.recording := by
  constructor
  · intro c n level file strict sup sup' times times' fs c' hvalid hvalid' hpoll hpoll' o o'
    obtain ⟨precision, hprecision⟩ := exists_parsedPrecision hvalid
    have hstart := start_of_parsedPrecision hvalid hprecision
    have hstart' := start_of_parsedPrecision hvalid' (c := c') hprecision
    generalize hs : State.start c _ _ _ _ = s at hstart
    generalize hs' : State.start c' _ _ _ _ = s' at hstart'
    have hstate : s.quiet = s'.quiet := by
      rw [← hs, ← hs']
      rfl
    have hquiet := State.checked_of_quiet (quiet_passes_congr hpoll hpoll' hstate)
    have hend := run_concludes hstart hpoll times fs
    have hend' := run_concludes hstart' hpoll' times' fs
    have hconfig : (secondPass sup (firstPass sup s)).result.checked.config = c :=
      (config_passes sup s).trans (eq_of_start hstart).2.1
    have hconfig' : (secondPass sup' (firstPass sup' s')).result.checked.config = c' :=
      (config_passes sup' s').trans (eq_of_start hstart').2.1
    generalize (secondPass sup (firstPass sup s)).result = r at hquiet hend hconfig
    generalize (secondPass sup' (firstPass sup' s')).result = r' at hquiet hend' hconfig'
    have hsaved (t : Times) : r'.checked.saved t Artifact.all fs = r.checked.saved t Artifact.all fs := by
      rw [← Result.saved_quiet, ← hquiet, Result.saved_quiet]
    obtain ⟨herror, hread⟩ := savedAlike_all times times' r.checked fs
    refine ⟨⟨r.checked, hend.result, ?_⟩, ?_, fun htimes => ?_, fun path hpath => ?_⟩
    · rw [hend'.result, Result.eq_of_quiet hquiet, hconfig']
    · rw [hend'.error, hend.error, hsaved, herror]
    · rw [hend'.files, hend.files, hsaved, htimes]
    · rw [hend.files] at hpath
      rw [hend'.files, hend.files, hsaved]
      exact hread path (by rwa [hconfig])
  · intro M A E σ ε ε' _ _ _ _ x n k observe poll hpoll hpoll' y
    exact ⟨Search.alike_of_unwatched hpoll hpoll' rfl,
      Search.alike_of_unwatched (x := x.recording) (y := y.recording) hpoll hpoll' rfl⟩

/-- One bucket, and a search of which every step is reported and polled. -/
theorem watching_changes_nothing_one_bucket :
    let c : Config := { Config.default with points := 8, depth := 1, diagnostics := "d.json", table := "t.json" }
    let c' : Config := { c with progressEvery := 1, logLevel := "debug", logFile := "run.log", strict := true }
    let x := (State.start c (Buffer.empty 1 .single) (Table.empty 8) c.epsilon .default).setup .undisturbed
    let y := (State.start c' (Buffer.empty 1 .single) (Table.empty 8) c.epsilon ⟨1, 1, false⟩).setup .undisturbed
    (∀ times times' : Times, ∃ r, (run c .undisturbed times .empty).result = some r ∧
      (run c' .undisturbed times' .empty).result = some { r with config := c' } ∧
      ∀ path, (run c' .undisturbed times' .empty).files.read path = (run c .undisturbed times .empty).files.read path) ∧
    x.Alike y := by
  intro c c' x y
  have hvalid : c.validate = .ok () := Config.validate_of_isOk (by decide +kernel)
  have hvalid' : c'.validate = .ok () := Config.validate_of_isOk (by decide +kernel)
  refine ⟨fun times times' => ?_, ?_⟩
  · obtain ⟨⟨r, hr, hr'⟩, -, -, hread⟩ := watching_changes_nothing.1 c 1 "debug" "run.log" true .undisturbed
      .undisturbed times times' .empty hvalid hvalid' (fun _ => rfl) (fun _ => rfl)
    -- no path is given for the metrics
    have hmetrics (fs : Files) : fs.target? "" = none := by
      rw [Files.target?, Files.find, show FileFault.ofText? "" = some .notFound by decide +kernel]
      rfl
    refine ⟨r, hr, hr', fun path => hread path fun q hq => ?_⟩
    rw [show c.metricsFile = "" from rfl, hmetrics] at hq
    cases hq
  · exact (watching_changes_nothing.2 x 1 1 (some progressRecord) (fun _ => none) (fun _ => rfl) fun _ => rfl).1

end Run

end CliffordT
