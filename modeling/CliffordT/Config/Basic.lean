import CliffordT.Buffer
import CliffordT.Decimal.Format
import CliffordT.Log.Level
import CliffordT.Text.Duration

/-!
# Parameters of a run

All that can be set for a run, with the values used when nothing is set, and the conditions that a run needs. The
conditions are checked in a fixed order, and the first that fails is the one reported.
-/

namespace CliffordT

/-- The parameters of a run. -/
structure Config where
  /-- slots on the whole circle -/
  points : Int
  /-- below this a matrix entry counts as zero -/
  epsilon : Float
  /-- the largest number of blocks in the buffer -/
  depth : Int
  /-- how the buffer stores matrices, by name -/
  precision : RawText
  /-- where the diagnostic record goes; empty for nowhere -/
  diagnostics : RawText
  /-- where the table goes; empty for nowhere -/
  table : RawText
  /-- where the metrics go; empty for nowhere -/
  metricsFile : RawText
  /-- how long the search may take; zero for as long as it needs -/
  timeout : Duration
  /-- steps between progress records -/
  progressEvery : Int
  /-- whether to leave out the second pass -/
  skipMeet : Bool
  /-- whether an incomplete or wrong table is a failure -/
  strict : Bool
  logLevel : RawText
  /-- where log records go besides the standard error output; empty for nowhere -/
  logFile : RawText
deriving DecidableEq

/-- A condition on the parameters that fails, with the value that fails it. -/
inductive ConfigError where
  | points (n : Int)
  | epsilon (x : Float)
  | depth (n : Int)
  | progressEvery (n : Int)
  | timeout (d : Duration)
  | precision (t : RawText)
  | logLevel (t : RawText)

/-- The wording of such an error. -/
def ConfigError.message : ConfigError → String
  | .points n => "config: points must be a positive multiple of 8: got " ++ toString n
  | .epsilon x => "config: epsilon must be finite and > 0: got " ++ Decimal.Style.general.write x
  | .depth n =>
    "config: depth out of range: got " ++ toString n ++ ", want [1, " ++ toString Buffer.maxDepth ++ "]"
  | .progressEvery n => "config: progress_every must be > 0: got " ++ toString n
  | .timeout d => "config: timeout must be >= 0: got " ++ d.text
  | .precision t => "config: unknown precision: " ++ t.quoted
  | .logLevel t => "config: unknown log level: " ++ t.quoted

namespace Config

/-- The parameters when nothing is set. -/
def default : Config where
  points := 256
  epsilon := 1e-2
  depth := 20
  precision := Precision.name .single
  diagnostics := "phase_table_diagnostics.json"
  table := "phase_table.json"
  metricsFile := ""
  timeout := ⟨0⟩
  progressEvery := 1048576
  skipMeet := false
  strict := false
  logLevel := "info"
  logFile := ""

/-- How many buckets the table has. -/
def phaseCount (c : Config) : Int := c.points.tdiv 8

/-- The precision that is named. -/
def parsedPrecision (c : Config) : Except ConfigError Precision :=
  match Precision.ofName c.precision.text with
  | .ok p => .ok p
  | .error _ => .error (.precision c.precision)

/-- Whether a tolerance is finite and positive. -/
def epsilonFits (x : Float) : Bool := !(x.isNaN || x.isInf || x ≤ 0)

/-- Check all conditions. -/
def validate (c : Config) : Except ConfigError Unit :=
  if c.points ≤ 0 ∨ c.points.tmod 8 ≠ 0 then .error (.points c.points)
  else if !epsilonFits c.epsilon then .error (.epsilon c.epsilon)
  else if c.depth < 1 ∨ Buffer.maxDepth < c.depth then .error (.depth c.depth)
  else if c.progressEvery ≤ 0 then .error (.progressEvery c.progressEvery)
  else if c.timeout.nanoseconds < 0 then .error (.timeout c.timeout)
  else
    match c.parsedPrecision with
    | .error e => .error e
    | .ok _ => if (Log.Level.ofName? c.logLevel.text).isNone then .error (.logLevel c.logLevel) else .ok ()

end Config

end CliffordT
