import CliffordT.Config.Basic
import CliffordT.Config.Setting

/-!
# The names of the parameters

Every parameter has a key, and it is set by the setting of the key's name.
-/

namespace CliffordT.Config

/-- One key per parameter. -/
inductive Key where
  | points
  | epsilon
  | depth
  | precision
  | diagnostics
  | table
  | metricsFile
  | timeout
  | progressEvery
  | skipMeet
  | strict
  | logLevel
  | logFile
deriving DecidableEq, Repr

namespace Key

/-- All keys. -/
def all : List Key :=
  [points, epsilon, depth, precision, diagnostics, table, metricsFile, timeout, progressEvery, skipMeet, strict,
   logLevel, logFile]

/-- The name of the setting that sets a parameter. -/
def name : Key → String
  | points => "points"
  | epsilon => "epsilon"
  | depth => "depth"
  | precision => "precision"
  | diagnostics => "diagnostics"
  | table => "table"
  | metricsFile => "metrics_file"
  | timeout => "timeout"
  | progressEvery => "progress_every"
  | skipMeet => "skip_mitm"
  | strict => "strict"
  | logLevel => "log_level"
  | logFile => "log_file"

end Key

/-- The parameters with one of them set. -/
def set (c : Config) (k : Key) (value : Setting) : Setting.Conversion Config :=
  match k with
  | .points => (value.toInt k.name).map fun n => { c with points := n }
  | .epsilon => (value.toFloat k.name).map fun x => { c with epsilon := x }
  | .depth => (value.toInt k.name).map fun n => { c with depth := n }
  | .precision => (value.toText k.name).map fun s => { c with precision := s }
  | .diagnostics => (value.toText k.name).map fun s => { c with diagnostics := s }
  | .table => (value.toText k.name).map fun s => { c with table := s }
  | .metricsFile => (value.toText k.name).map fun s => { c with metricsFile := s }
  | .timeout => (value.toDuration k.name).map fun d => { c with timeout := d }
  | .progressEvery => (value.toInt k.name).map fun n => { c with progressEvery := n }
  | .skipMeet => (value.toBool k.name).map fun b => { c with skipMeet := b }
  | .strict => (value.toBool k.name).map fun b => { c with strict := b }
  | .logLevel => (value.toText k.name).map fun s => { c with logLevel := s }
  | .logFile => (value.toText k.name).map fun s => { c with logFile := s }

end CliffordT.Config
