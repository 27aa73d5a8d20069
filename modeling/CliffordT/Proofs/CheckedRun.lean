import CliffordT.Proofs.CheckedTable
import CliffordT.Proofs.RunEnds

/-!
# Runs with every index checked

A run whose parameters meet all conditions has no reason left to fail for them: what the conditions let pass is good for
a precision, for a table, for a buffer, for the options of a search and for a log.  And nothing in it is indexed out of
range: with every access checked the run has a value, which is that of the run itself, whatever its polls answer and
whatever files it finds (`Checked.run_eq`).  So the parameters are either found out at once or not at all
(`parameters_fail_at_once`).
-/

namespace CliffordT

namespace Checked

open Run (State Supervision Times Outcome)

/-! ### The stages of a run -/

/-- Search the buffer while it is filled. -/
def firstPass (sup : Supervision) (s : State) : Option State := do
  let (buffer, p) ← exhaustive (s.setup sup) tableOffer s.buffer s.result.table s.polls
  let s : State := { s with result := { s.result with exhaustive := p.stats } }
  return s.after sup buffer p "exhaustive stage finished"

/-- Search joined words, unless there is a reason to leave that out. -/
def secondPass (sup : Supervision) (s : State) : Option State :=
  if !s.needsMeet then some s
  else if s.result.config.skipMeet then some (s.log .info "meet-in-the-middle skipped" [])
  else do
    let (buffer, p, _) ← meetInTheMiddle (s.setup sup) tableOffer s.buffer s.result.table s.polls
    let s : State := { s with result := { s.result with meet := some p.stats } }
    return s.after sup buffer p "meet-in-the-middle stage finished"

/-- Expand and verify the table. -/
def checkTable (s : State) : Option State := do
  let t := s.result.table
  let check := Verify.Check.within s.result.config.epsilon
  let full ← expand t
  let canonical := Verify.canonical check t
  let expanded ← expanded check t full
  return { s with
    result := { s.result with full := some full, canonical := canonical, expanded := expanded }
    logs := s.logs ++ canonical.mismatches.map (Run.mismatchRecord "canonical") ++
      expanded.mismatches.map (Run.mismatchRecord "expanded") }

/-- Expand and verify the table, unless the search failed. -/
def verified (s : State) : Option State := if s.error.isSome then some s else checkTable s.noteMissing

/-- Write one of the artifacts. -/
def writeArtifact (times : Times) (s : State) (fs : Files) : Run.Artifact → Option (State × Files)
  | .diagnostics =>
    if s.error.isSome ∨ s.result.config.diagnostics.isEmpty then some (s, fs)
    else do
      let record ← record s.result.table
      return Run.artifact s.result.config.diagnostics .info "diagnostic record written"
        (fun fs => Artifact.writeRecord fs s.result.config.diagnostics record) s fs
  | a => some (Run.writeArtifact times s fs a)

/-- Write the artifacts and end the run, unless the search failed. -/
def conclude (times : Times) (fs : Files) (s : State) : Option Outcome :=
  if s.error.isSome then some (s.outcome fs)
  else do
    let (s, fs) ← Run.Artifact.all.foldlM (fun (s, fs) a => writeArtifact times s fs a) (s, fs)
    return (s.noteEnd times).outcome fs

/-- Run with the given parameters on a tree of files. -/
def run (c : Config) (sup : Supervision) (times : Times) (fs : Files) : Option Outcome :=
  match Run.start c with
  | .error e => some ⟨none, some (.unfit e), [], fs⟩
  | .ok s => do
    let s ← firstPass sup s
    let s ← secondPass sup s
    let s ← verified s
    conclude times fs s

/-! ### No check fails -/

/-- The table and the buffer of a run are as they should be, and by its intervals can be divided. -/
structure Sound (s : State) : Prop where
  table : s.result.table.WellFormed
  buffer : s.buffer.filled ≤ s.buffer.capacity
  check : 0 < s.options.checkEvery
  progress : 0 < s.options.progressEvery

variable {s : State} {sup : Supervision}

theorem Sound.divides (h : Sound s) : Divides (s.setup sup) := ⟨h.check, h.progress⟩

/-- What the end of a pass leaves, if the pass left a well-formed table and a buffer within its capacity. -/
theorem Sound.after (h : Sound s) {b : Buffer Matrix} (hb : b.filled ≤ b.capacity)
    {p : Search.Pass DoubleTable Log.Record} (hp : p.sink.WellFormed) (finished : String) :
    Sound (s.after sup b p finished) where
  table := by
    rw [State.table_after]
    exact hp
  buffer := by
    rw [State.buffer_after]
    exact hb
  check := by
    rw [State.options_after]
    exact h.check
  progress := by
    rw [State.options_after]
    exact h.progress

theorem filled_exhaustive_le {M A E σ ε : Type} [Storable M] [GateAlgebra M] [Zero A] [Zero E]
    (x : Search.Setup M A E σ ε) {b : Buffer M} (hb : b.filled ≤ b.capacity) (s : σ) (polls : Nat) :
    (Search.exhaustive x b s polls).1.filled ≤ (Search.exhaustive x b s polls).1.capacity := by
  cases hseed : x.sink.complete (x.sink.offer s Search.seed) with
  | true =>
    rw [Search.exhaustive_of_seed_complete hseed]
    exact hb
  | false =>
    rw [Search.exhaustive_of_seed_not_complete hseed, Buffer.capacity_fill]
    exact Buffer.filled_fill_le _ _ hb

theorem filled_meetInTheMiddle_le {M A E σ ε : Type} [Storable M] [GateAlgebra M] (x : Search.Setup M A E σ ε)
    {b : Buffer M} (hb : b.filled ≤ b.capacity) (s : σ) (polls : Nat) :
    (Search.meetInTheMiddle x b s polls).1.filled ≤ (Search.meetInTheMiddle x b s polls).1.capacity := by
  have hfull : (if b.full then b else b.fillAll).filled ≤ (if b.full then b else b.fillAll).capacity := by
    split
    · exact hb
    · rw [Buffer.filled_fillAll hb, Buffer.capacity_fillAll]
  unfold Search.meetInTheMiddle
  dsimp only
  split
  · exact hb
  · split <;> exact hfull

theorem firstPass_eq (sup : Supervision) (h : Sound s) :
    firstPass sup s = some (Run.firstPass sup s) ∧ Sound (Run.firstPass sup s) := by
  obtain ⟨hvalue, htable⟩ := exhaustive_eq (takes_tableOffer (x := s.setup sup) rfl) h.divides h.buffer h.table s.polls
  have hbuffer := filled_exhaustive_le (s.setup sup) h.buffer s.result.table s.polls
  have hsound : Sound { s with result := { s.result with
      exhaustive := (Search.exhaustive (s.setup sup) s.buffer s.result.table s.polls).2.stats } } :=
    ⟨h.table, h.buffer, h.check, h.progress⟩
  rw [firstPass, hvalue]
  exact ⟨rfl, hsound.after hbuffer htable _⟩

theorem secondPass_eq (sup : Supervision) (h : Sound s) :
    secondPass sup s = some (Run.secondPass sup s) ∧ Sound (Run.secondPass sup s) := by
  obtain ⟨hvalue, htable⟩ :=
    meetInTheMiddle_eq (takes_tableOffer (x := s.setup sup) rfl) h.divides h.buffer h.table s.polls
  have hbuffer := filled_meetInTheMiddle_le (s.setup sup) h.buffer s.result.table s.polls
  unfold secondPass Run.secondPass
  split
  · exact ⟨rfl, h⟩
  · split
    · exact ⟨rfl, h.table, h.buffer, h.check, h.progress⟩
    · have hsound : Sound { s with result := { s.result with
          meet := some (Search.meetInTheMiddle (s.setup sup) s.buffer s.result.table s.polls).2.1.stats } } :=
        ⟨h.table, h.buffer, h.check, h.progress⟩
      rw [hvalue]
      exact ⟨rfl, hsound.after hbuffer htable _⟩

theorem verified_eq (h : s.result.table.WellFormed) : verified s = some s.verified := by
  have hmissing : s.noteMissing.result = s.result := by
    unfold State.noteMissing
    dsimp only
    split <;> rfl
  unfold verified State.verified
  split
  · rfl
  · rw [checkTable, hmissing, expand_eq h]
    simp only [Option.bind_eq_bind, Option.bind_some, expanded_eq h]
    rw [State.checkTable, hmissing]
    rfl

theorem writeArtifact_eq (h : s.result.table.WellFormed) (times : Times) (fs : Files) (a : Run.Artifact) :
    writeArtifact times s fs a = some (Run.writeArtifact times s fs a) := by
  cases a with
  | diagnostics =>
    unfold writeArtifact Run.writeArtifact
    dsimp only
    split
    · rename_i hnot
      rw [Run.artifact, if_pos hnot]
    · rw [record_eq h]
      rfl
  | table => rfl
  | metrics => rfl

theorem result_writeArtifact (times : Times) (s : State) (fs : Files) (a : Run.Artifact) :
    (Run.writeArtifact times s fs a).1.result = s.result := by
  obtain ⟨level, message, hwrite⟩ := Run.writeArtifact_eq times a
  rw [hwrite]
  unfold Run.artifact
  split
  · rfl
  · split <;> rfl

theorem foldlM_writeArtifact (h : s.result.table.WellFormed) (times : Times) (as : List Run.Artifact) (fs : Files) :
    as.foldlM (fun (s, fs) a => writeArtifact times s fs a) (s, fs) =
      some (as.foldl (fun (s, fs) a => Run.writeArtifact times s fs a) (s, fs)) := by
  induction as generalizing s fs with
  | nil => rfl
  | cons a as ih =>
    rw [List.foldlM_cons, List.foldl_cons]
    dsimp only
    rw [writeArtifact_eq h, Option.bind_eq_bind, Option.bind_some]
    refine ih (s := (Run.writeArtifact times s fs a).1) ?_ (Run.writeArtifact times s fs a).2
    rw [result_writeArtifact]
    exact h

theorem conclude_eq (h : s.result.table.WellFormed) (times : Times) (fs : Files) :
    conclude times fs s = some (Run.conclude times fs s) := by
  unfold conclude Run.conclude Run.writeArtifacts
  rw [foldlM_writeArtifact h]
  split
  · rfl
  · rfl

theorem sound_start {c : Config} (h : Run.start c = .ok s) : Sound s := by
  have hvalid := Run.validate_of_start h
  obtain ⟨precision, -, hnew, -⟩ := Run.start_eq_ok h
  have htable := Table.wellFormed_foldl_offer hnew []
  obtain ⟨precision, hstart⟩ := Run.start_of_validate hvalid
  obtain rfl := Except.ok.inj (hstart.symm.trans h)
  refine ⟨htable, Nat.zero_le _, show 0 < Search.Options.default.checkEvery by decide, ?_⟩
  show 0 < c.progressEvery.toNat
  unfold Config.validate at hvalid
  iterate 3 split at hvalid <;> [cases hvalid; skip]
  split at hvalid <;> [cases hvalid; skip]
  omega

/-- A run indexes nothing out of range. -/
theorem run_eq (c : Config) (sup : Supervision) (times : Times) (fs : Files) :
    run c sup times fs = some (Run.run c sup times fs) := by
  unfold run
  cases hstart : Run.start c with
  | error e => rw [Run.run, Run.search, hstart]; rfl
  | ok s =>
    have hsound := sound_start hstart
    obtain ⟨hfirst, hsound⟩ := firstPass_eq sup hsound
    obtain ⟨hsecond, hsound⟩ := secondPass_eq sup hsound
    obtain ⟨logs, full, canonical, expanded, hverified⟩ :=
      State.verified_eq (Run.secondPass sup (Run.firstPass sup s))
    have htable : (Run.secondPass sup (Run.firstPass sup s)).verified.result.table.WellFormed := by
      rw [hverified]
      exact hsound.table
    simp only [hfirst, hsecond, verified_eq hsound.table, conclude_eq htable, Option.bind_eq_bind, Option.bind_some]
    rw [Run.run_of_start hstart]

end Checked

namespace Run

theorem error_ne_unfit_of_start {c : Config} {s : State} (h : start c = .ok s) (sup : Supervision) (times : Times)
    (fs : Files) (u : Unfit) : (run c sup times fs).error ≠ some (.unfit u) := by
  rw [run_of_start h]
  rcases error_passes_cases (eq_of_start h).1 sup with hnone | ⟨stage, i, hfailed⟩
  · rw [(concludes_of_no_error hnone times fs).error]
    generalize (Result.saved _ _ _ _).1 = e
    cases e <;> rintro ⟨⟩
  · rw [(conclude_of_error hfailed times fs).1]
    rintro ⟨⟩

theorem run_of_unfit {c : Config} {e : ConfigError} (h : c.validate = .error e) (sup : Supervision) (times : Times)
    (fs : Files) : run c sup times fs = ⟨none, some (.unfit (.config e)), [], fs⟩ := by
  have hstart : start c = .error (.config e) := by
    simp only [start, prepare, h, Except.mapError, bind, Except.bind]
  rw [run, search, hstart]
  rfl

/-- What parameters that meet all conditions are good for. -/
theorem fit_of_validate {c : Config} (h : c.validate = .ok ()) :
    ∃ precision, c.parsedPrecision = .ok precision ∧ Precision.ofCode precision.code = .ok precision ∧
      (∃ t : DoubleTable, Table.new c.points = .ok t) ∧
      (∃ b : Buffer Matrix, Buffer.new c.depth precision = .ok b) ∧
      Search.checkEpsilon c.epsilon = .ok c.epsilon ∧
      (∃ o, Search.Options.default.withProgressEvery c.progressEvery = .ok o) ∧
      ∃ level, Log.Level.ofName? c.logLevel.text = some level := by
  unfold Config.validate at h
  split at h <;> [cases h; skip]
  rename_i hpoints
  split at h <;> [cases h; skip]
  rename_i hepsilon
  split at h <;> [cases h; skip]
  rename_i hdepth
  split at h <;> [cases h; skip]
  rename_i hprogress
  split at h <;> [cases h; skip]
  split at h <;> [cases h; skip]
  rename_i precision hprecision
  split at h <;> [cases h; skip]
  rename_i hlevel
  refine ⟨precision, hprecision, by cases precision <;> rfl, ?_, ?_, ?_, ?_, ?_⟩
  · exact ⟨_, by rw [Table.new, if_neg (by omega), if_neg (by omega)]⟩
  · exact ⟨_, by rw [Buffer.new, if_neg hdepth]⟩
  · rw [Search.checkEpsilon, if_neg]
    simpa [Config.epsilonFits] using hepsilon
  · exact ⟨_, by rw [Search.Options.withProgressEvery, if_neg hprogress]⟩
  · exact Option.ne_none_iff_exists'.1 (by simpa using hlevel)

/-- Parameters are found out before anything is done with them, or they are good for all that follows: for the
precision, the table, the buffer, the tolerance, the interval of the reports and the log, and for a run in which nothing
is indexed out of range. -/
theorem parameters_fail_at_once (c : Config) :
    (∀ sup times fs u, (run c sup times fs).error = some (.unfit u) ↔ ∃ e, c.validate = .error e ∧ u = .config e) ∧
    (∀ e, c.validate = .error e → ∀ sup times fs,
      run c sup times fs = ⟨none, some (.unfit (.config e)), [], fs⟩) ∧
    (c.validate = .ok () →
      ∃ precision, c.parsedPrecision = .ok precision ∧ Precision.ofCode precision.code = .ok precision ∧
        (∃ t : DoubleTable, Table.new c.points = .ok t) ∧
        (∃ b : Buffer Matrix, Buffer.new c.depth precision = .ok b) ∧
        Search.checkEpsilon c.epsilon = .ok c.epsilon ∧
        (∃ o, Search.Options.default.withProgressEvery c.progressEvery = .ok o) ∧
        ∃ level, Log.Level.ofName? c.logLevel.text = some level) ∧
    ∀ sup times fs, Checked.run c sup times fs = some (run c sup times fs) := by
  refine ⟨fun sup times fs u => ⟨fun herror => ?_, ?_⟩, fun e he => run_of_unfit he, fit_of_validate, Checked.run_eq c⟩
  · cases hvalid : c.validate with
    | ok _ =>
      obtain ⟨precision, hstart⟩ := start_of_validate hvalid
      exact absurd herror (error_ne_unfit_of_start hstart sup times fs u)
    | error e =>
      rw [run_of_unfit hvalid] at herror
      cases herror
      exact ⟨e, rfl, rfl⟩
  · rintro ⟨e, he, rfl⟩
    rw [run_of_unfit he]

/-- A circle of 16 slots and a buffer of depth 1, and a circle of 12 slots. -/
theorem parameters_fail_at_once_sixteen_twelve :
    let c : Config := { Config.default with points := 16, depth := 1 }
    let d : Config := { Config.default with points := 12 }
    (c.validate = .ok () ∧ ∃ level, Log.Level.ofName? c.logLevel.text = some level) ∧
    d.validate = .error (.points 12) ∧
      (run d .undisturbed ⟨⟨0⟩, ⟨0⟩, ⟨0⟩⟩ .empty).error = some (.unfit (.config (.points 12))) := by
  intro c d
  have hvalid : c.validate = .ok () := Config.validate_of_isOk (by decide +kernel)
  obtain ⟨-, -, hfit, -⟩ := parameters_fail_at_once c
  obtain ⟨precision, -, -, -, -, -, -, hlevel⟩ := hfit hvalid
  obtain ⟨-, hunfit, -⟩ := parameters_fail_at_once d
  refine ⟨⟨hvalid, hlevel⟩, rfl, ?_⟩
  rw [hunfit (.points 12) rfl]

end Run

end CliffordT
