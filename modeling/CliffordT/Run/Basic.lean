import CliffordT.Artifact.Store
import CliffordT.Config.Basic
import CliffordT.Log.Record
import CliffordT.Run.Metrics
import CliffordT.Search.Exhaustive
import CliffordT.Search.MeetInTheMiddle

/-!
# A run

A run checks its parameters, searches with both passes, expands and verifies the table and writes the artifacts. What
happens outside is given to it: whether its polls find it interrupted, and how long things take. If the time that its
parameters allow is over, it stops searching and goes on with what was found; if its caller interrupts it, it fails
and writes nothing.

The stages `start`, `firstPass`, `secondPass`, `State.verified` and `conclude` can be called one by one; `run` calls
them all.
-/

namespace CliffordT.Run

open CliffordT.Search (Stats Progress Interrupt)

/-- Why parameters do not fit. Only the first can arise from a run: what the conditions on the parameters let pass is
good for a table, for a buffer and for a search. -/
inductive Unfit where
  | config (e : ConfigError)
  | table (e : TableError)
  | buffer (e : DepthError)
  | option (e : Search.OptionError)

/-- The wording of such a cause. -/
def Unfit.message : Unfit → String
  | .config e => e.message
  | .table e => e.message
  | .buffer e => e.message
  | .option e => e.message

/-- Why a run failed. -/
inductive RunError where
  | unfit (e : Unfit)
  | interrupted (stage : Search.Stage) (i : Interrupt)
  | artifact (e : ArtifactError)

/-- The wording of a run error. -/
def RunError.message : RunError → RawText
  | .unfit e => "synth: invalid configuration: " ++ e.message
  | .interrupted stage i => "synth: " ++ stage.name ++ ": " ++ i.message
  | .artifact e => "synth: " ++ e.message

/-- What is known about interruptions: the answer to each poll of the search, and, after so many polls, whether the
caller itself has been interrupted. -/
structure Supervision where
  poll : Nat → Option Interrupt
  caller : Nat → Option Interrupt

/-- How long the passes and the whole run took. -/
structure Times where
  first : Duration
  second : Duration
  whole : Duration

/-- What a run found. -/
structure Result where
  config : Config
  exhaustive : Stats
  /-- the second pass, if it ran -/
  meet : Option Stats
  /-- whether the time allowed was over before the search ended -/
  timedOut : Bool
  table : DoubleTable
  /-- the words of all slots, once the table was expanded -/
  full : Option (List Word)
  canonical : Verify.Report Float Float
  expanded : Verify.Report Float Float
  bufferBytes : Nat

namespace Result

/-- Whether every bucket was found. -/
def complete (r : Result) : Bool := r.table.complete

/-- How many mismatches both verifications found. -/
def mismatches (r : Result) : Nat := r.canonical.mismatches.length + r.expanded.mismatches.length

end Result

/-- A run in progress. -/
structure State where
  result : Result
  /-- the tolerance and the intervals of its searches -/
  epsilon : Float
  options : Search.Options
  buffer : Buffer Matrix
  /-- polls made so far -/
  polls : Nat
  logs : List Log.Record
  error : Option RunError

/-- What a run leaves. Without a result it has not started. -/
structure Outcome where
  result : Option Result
  error : Option RunError
  logs : List Log.Record
  files : Files

/-! ### Log records -/

/-- Add a record. -/
def State.log (s : State) (level : Log.Level) (message : String) (fields : List (String × Log.Value)) : State :=
  { s with logs := s.logs ++ [⟨level, message, fields⟩] }

/-- The values that describe a pass. -/
def stageFields (s : Stats) (found : Nat) : List (String × Log.Value) :=
  [("stage", .text s.stage.name), ("visited", .int s.visited), ("products", .int s.products), ("hits", .int s.hits),
   ("found", .int found), ("complete", .bool s.complete)]

/-- The record of a progress report. -/
def progressRecord (p : Progress) (t : DoubleTable) : Log.Record :=
  let percent := 100 * Float.ofNat p.done / Float.ofNat p.total
  let share : List (String × Log.Value) :=
    if 0 < p.total then [("percent", .text (Decimal.fixed 1 percent))] else []
  ⟨.debug, "search progress", stageFields p.stats t.found ++ [("done", .int p.done), ("total", .int p.total)] ++ share⟩

/-- The record of a mismatch. -/
def mismatchRecord (pass : String) (m : Verify.Mismatch Float Float) : Log.Record :=
  let slot : List (String × Log.Value) := match m.slot with | some s => [("slot", .int s)] | none => []
  let cause : List (String × Log.Value) :=
    match m.reason with | .replayFailed e => [("error", .text e.message)] | _ => []
  ⟨.warning, m.reason.message,
    [("pass", .text pass), ("bucket", .int m.bucket), ("gates", .text m.gates.text), ("expected", .float m.expected),
     ("actual", .float m.actual), ("residual", .float m.residual)] ++ slot ++ cause⟩

/-! ### Stages -/

/-- What the parameters ask for: a buffer, a table, and the tolerance and intervals of the searches. -/
def prepare (c : Config) : Except Unfit (Buffer Matrix × DoubleTable × Float × Search.Options) := do
  c.validate.mapError .config
  let precision ← c.parsedPrecision.mapError .config
  let table ← (Table.new c.points).mapError .table
  let buffer ← (Buffer.new c.depth precision).mapError .buffer
  let epsilon ← (Search.checkEpsilon c.epsilon).mapError .option
  let options ← (Search.Options.default.withProgressEvery c.progressEvery).mapError .option
  return (buffer, table, epsilon, options)

/-- A run before its first pass. -/
def State.start (c : Config) (buffer : Buffer Matrix) (table : DoubleTable) (epsilon : Float)
    (options : Search.Options) : State where
  result :=
    { config := c, exhaustive := Stats.start .exhaustive, meet := none, timedOut := false, table := table
      full := none, canonical := ⟨0, []⟩, expanded := ⟨0, []⟩, bufferBytes := buffer.bytes }
  epsilon := epsilon
  options := options
  buffer := buffer
  polls := 0
  logs :=
    [⟨.info, "synthesis started",
      [("points", .int c.points), ("buckets", .int table.phaseCount), ("epsilon", .float c.epsilon),
       ("depth", .int c.depth), ("precision", .text buffer.precision.name), ("capacity", .int buffer.capacity),
       ("bytes", .int buffer.bytes)]⟩]
  error := none

/-- Check the parameters and make the buffer and the table. -/
def start (c : Config) : Except Unfit State :=
  match prepare c with
  | .ok (buffer, table, epsilon, options) => .ok (State.start c buffer table epsilon options)
  | .error e => .error e

/-- What the passes of a run are given. -/
def State.setup (sup : Supervision) (s : State) : Search.Setup Matrix Float Float DoubleTable Log.Record where
  probe := Probe.within s.epsilon
  sink := Table.sink
  options := s.options
  observe := some progressRecord
  poll := sup.poll

/-- Whether an interruption comes from the time that the run was allowed and not from its caller. -/
def budgetSpent (sup : Supervision) (polls : Nat) (i : Interrupt) : Bool :=
  i = .deadlineExceeded && (sup.caller polls).isNone

/-- Take over what a pass did, and decide what its end means for the run. -/
def State.after (sup : Supervision) (s : State) (buffer : Buffer Matrix)
    (p : Search.Pass DoubleTable Log.Record) (finished : String) : State :=
  let s : State :=
    { s with
      buffer := buffer
      polls := p.polls
      logs := s.logs ++ p.events.toList
      result := { s.result with table := p.sink } }
  let fields := stageFields p.stats p.sink.found
  match p.interrupt with
  | none => s.log .info finished fields
  | some i =>
    if budgetSpent sup p.polls i then
      let s : State := { s with result := { s.result with timedOut := true } }
      s.log .warning "search budget exhausted" (fields ++ [("timeout", .text s.result.config.timeout.text)])
    else { s with error := some (.interrupted p.stats.stage i) }

/-- Search the buffer while it is filled. -/
def firstPass (sup : Supervision) (s : State) : State :=
  let (buffer, p) := Search.exhaustive (s.setup sup) s.buffer s.result.table s.polls
  let s : State := { s with result := { s.result with exhaustive := p.stats } }
  s.after sup buffer p "exhaustive stage finished"

/-- Whether the second pass has anything to do. -/
def State.needsMeet (s : State) : Bool :=
  s.error.isNone && !s.result.exhaustive.complete && !s.result.timedOut

/-- Search joined words, unless the table is complete, the time is over or the pass is to be left out. -/
def secondPass (sup : Supervision) (s : State) : State :=
  if !s.needsMeet then s
  else if s.result.config.skipMeet then s.log .info "meet-in-the-middle skipped" []
  else
    let (buffer, p, _) := Search.meetInTheMiddle (s.setup sup) s.buffer s.result.table s.polls
    let s : State := { s with result := { s.result with meet := some p.stats } }
    s.after sup buffer p "meet-in-the-middle stage finished"

/-- Note the buckets that were not found. -/
def State.noteMissing (s : State) : State :=
  let t := s.result.table
  if t.complete then s
  else
    s.log .warning "phase table incomplete"
      [("found", .int t.found), ("missing", .ints (t.missing.map Int.ofNat)), ("degrees", .floats t.missingDegrees)]

/-- Expand and verify the table. -/
def State.checkTable (s : State) : State :=
  let t := s.result.table
  let check := Verify.Check.within s.result.config.epsilon
  let full := t.expand
  let canonical := Verify.canonical check t
  let expanded := Verify.expanded check t full
  { s with
    result := { s.result with full := some full, canonical := canonical, expanded := expanded }
    logs := s.logs ++ canonical.mismatches.map (mismatchRecord "canonical") ++
      expanded.mismatches.map (mismatchRecord "expanded") }

/-- Expand and verify the table, unless the search failed. -/
def State.verified (s : State) : State := if s.error.isSome then s else s.noteMissing.checkTable

/-- The metrics of a run. -/
def Result.metrics (r : Result) (times : Times) : String :=
  Metrics.text
    { bufferBytes := r.bufferBytes
      passes := (r.exhaustive, times.first) :: (match r.meet with | some m => [(m, times.second)] | none => [])
      table := r.table
      canonicalMismatches := r.canonical.mismatches.length
      expandedMismatches := r.expanded.mismatches.length }

/-- Write one artifact if a path is given for it, and say so in the log. -/
def artifact (path : RawText) (level : Log.Level) (message : String)
    (write : Files → Except CliffordT.Artifact.Setback Files) (s : State) (fs : Files) : State × Files :=
  if s.error.isSome ∨ path.isEmpty then (s, fs)
  else
    match write fs with
    | .error e => ({ s with error := some (.artifact e.cause) }, e.files)
    | .ok fs => (s.log level message [("path", .text path)], fs)

/-- The artifacts of a run, in the order in which they are written. -/
inductive Artifact where
  | diagnostics
  | table
  | metrics
deriving DecidableEq, Repr

namespace Artifact

/-- All artifacts in order. -/
def all : List Artifact := [.diagnostics, .table, .metrics]

/-- The path that the parameters give for an artifact; empty if it is not to be written. -/
def path (c : Config) : Artifact → RawText
  | .diagnostics => c.diagnostics
  | .table => c.table
  | .metrics => c.metricsFile

/-- Whether an artifact takes the place of an older file as a whole; the others are written over it. -/
def replaces : Artifact → Bool
  | .metrics => true
  | _ => false

end Artifact

/-- Write one of the artifacts. -/
def writeArtifact (times : Times) (s : State) (fs : Files) : Artifact → State × Files
  | .diagnostics =>
    artifact s.result.config.diagnostics .info "diagnostic record written"
      (fun fs => CliffordT.Artifact.writeDiagnostics fs s.result.config.diagnostics s.result.table) s fs
  | .table =>
    artifact s.result.config.table .info "phase table written"
      (fun fs => CliffordT.Artifact.writeTable fs s.result.config.table (s.result.full.getD [])) s fs
  | .metrics =>
    artifact s.result.config.metricsFile .debug "metrics written"
      (fun fs => CliffordT.Artifact.writeMetrics fs s.result.config.metricsFile (s.result.metrics times)) s fs

/-- Write the artifacts in order, up to the first that fails. -/
def writeArtifacts (times : Times) (s : State) (fs : Files) : State × Files :=
  Artifact.all.foldl (fun (s, fs) a => writeArtifact times s fs a) (s, fs)

/-- Note the end of a run that has not failed. -/
def State.noteEnd (times : Times) (s : State) : State :=
  let r := s.result
  if s.error.isSome then s
  else
    s.log .info "synthesis finished"
      [("found", .int r.table.found), ("buckets", .int r.table.phaseCount), ("mismatches", .int r.mismatches),
       ("timed_out", .bool r.timedOut), ("elapsed", .text times.whole.roundMillisecond.text)]

/-- What a run leaves. -/
def State.outcome (s : State) (fs : Files) : Outcome := ⟨some s.result, s.error, s.logs, fs⟩

/-- Write the artifacts and end the run, unless the search failed. -/
def conclude (times : Times) (fs : Files) (s : State) : Outcome :=
  if s.error.isSome then s.outcome fs
  else
    let (s, fs) := writeArtifacts times s fs
    (s.noteEnd times).outcome fs

/-- The part of a run that touches no files. -/
def search (c : Config) (sup : Supervision) : Except Unfit State :=
  (start c).map fun s => (secondPass sup (firstPass sup s)).verified

/-- What a run leaves when its search has ended. -/
def finish (times : Times) (fs : Files) : Except Unfit State → Outcome
  | .error e => ⟨none, some (.unfit e), [], fs⟩
  | .ok s => conclude times fs s

/-- Run with the given parameters on a tree of files. -/
def run (c : Config) (sup : Supervision) (times : Times) (fs : Files) : Outcome := finish times fs (search c sup)

end CliffordT.Run
