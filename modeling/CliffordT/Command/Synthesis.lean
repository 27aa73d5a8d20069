import CliffordT.Command.Reply
import CliffordT.Log.Output
import CliffordT.Run.Summary
import CliffordT.Text.Locale

/-!
# Synthesizing a table

The command without a name loads the parameters, runs, and prints a summary. The log of the run carries its identity
and goes to the standard error output and to the log file, each record in its turn: those of the search before the
first artifact is written, and those about an artifact right behind it.
-/

namespace CliffordT.Command

/-- What a synthesis takes from outside. -/
structure Surroundings where
  environment : List (String × String)
  /-- the identity of the run -/
  runId : String
  /-- the time of log records -/
  time : String
  /-- whether and when the run is interrupted, by the time that is allowed -/
  supervise : Duration → Run.Supervision
  times : Run.Times

/-- A synthesis that can begin: its parameters, the level of its log and what its summary is shown on. -/
structure Job where
  config : Config
  level : Log.Level
  runId : String
  eastAsian : Bool
deriving DecidableEq

/-- How a command ends whose parameters cannot be loaded. -/
def loadExit : Config.LoadError → Exit
  | .settings _ .incomparable => .broken
  | _ => .unfit

/-- Load the parameters of a synthesis. -/
def Job.load (fs : Files) (environment : List (String × String)) (runId : String) (a : Arguments) :
    Except Failure Job :=
  match Config.load fs environment a (a.text settingsFlag.name) with
  | .error e => .error ⟨loadExit e, e.message.text⟩
  | .ok c =>
    match Log.Level.ofName? c.logLevel.text with
    | none => .error ⟨.unfit, Log.Level.unknownMessage c.logLevel⟩
    | some level => .ok ⟨c, level, runId, Locale.hasEastAsianScreen environment⟩

/-- Log records of the run. -/
def Job.log (job : Job) (time : String) (o : Log.Output) (records : List Log.Record) : Log.Output :=
  (records.map fun r => r.tagged "run" (.text job.runId)).foldl (Log.Output.write job.level job.config.logFile time) o

/-- The record of a failed run. -/
def failureRecord (e : Run.RunError) : Log.Record := ⟨.error, "synthesis failed", [("error", .text e.message)]⟩

/-- How a run that failed ends. -/
def failureExit : Run.RunError → Exit
  | .unfit _ => .unfit
  | _ => .failed

/-- What a run means for its command: the summary, and a failure if there is one. -/
def Job.verdict (job : Job) (o : Run.Outcome) (elapsed : Duration) : String × Option Failure :=
  match o.error, o.result with
  | some e, _ => ("", some ⟨failureExit e, e.message.text⟩)
  | none, none => ("", none)
  | none, some r =>
    (Summary.text job.eastAsian job.runId (Summary.Facts.ofResult r) elapsed,
      if job.config.strict && strictFails r.table r.mismatches then some (strictFailure r.table r.mismatches)
      else none)

/-- A synthesis in progress: its run, and its log with the files. -/
structure Progress where
  state : Run.State
  log : Log.Output

/-- Go on to a state of the run, and log what it has to say beyond the state before. -/
def Job.advance (job : Job) (time : String) (p : Progress) (s : Run.State) (o : Log.Output) : Progress :=
  ⟨s, job.log time o (s.logs.drop p.state.logs.length)⟩

/-- The log after an artifact was written. -/
def afterArtifact (s : Run.State) (a : Run.Artifact) (o : Log.Output) : Log.Output :=
  if s.error.isSome || !a.replaces || (a.path s.result.config).isEmpty then o
  else
    match o.files.find (a.path s.result.config) with
    | .ok (place, _) => o.replaced place
    | .error _ => o

/-- Write one of the artifacts. -/
def Job.write (job : Job) (time : String) (times : Run.Times) (p : Progress) (a : Run.Artifact) : Progress :=
  let (s, fs) := Run.writeArtifact times p.state p.log.files a
  job.advance time p s (afterArtifact s a { p.log with files := fs })

/-- Write the artifacts and end the run, unless the search failed. -/
def Job.conclude (job : Job) (time : String) (times : Run.Times) (p : Progress) : Progress :=
  if p.state.error.isSome then p
  else
    let p := Run.Artifact.all.foldl (job.write time times) p
    job.advance time p (p.state.noteEnd times) p.log

/-- End a synthesis whose search has ended. -/
def Job.finish (job : Job) (time : String) (times : Run.Times) (fs : Files)
    (searched : Except Run.Unfit Run.State) : Reply :=
  let (outcome, log) :=
    match searched with
    | .error e => ((⟨none, some (.unfit e), [], fs⟩ : Run.Outcome), Log.Output.start fs)
    | .ok s =>
      let p := job.conclude time times ⟨s, job.log time (Log.Output.start fs) s.logs⟩
      (p.state.outcome p.log.files, p.log)
  let log := job.log time log (match outcome.error with | some e => [failureRecord e] | none => [])
  match job.verdict outcome times.whole with
  | (summary, none) => ⟨.done, summary, log.noted, log.files⟩
  | (summary, some f) => Reply.failed f summary log.noted log.files

/-- Load the parameters, run and report. -/
def synthesize (outside : Surroundings) (fs : Files) (a : Arguments) : Reply :=
  match Job.load fs outside.environment outside.runId a with
  | .error f => Reply.failed f "" "" fs
  | .ok job =>
    job.finish outside.time outside.times fs (Run.search job.config (outside.supervise job.config.timeout))

end CliffordT.Command
