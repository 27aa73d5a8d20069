import CliffordT.Decimal.Format
import CliffordT.Double
import CliffordT.Text.Duration

/-!
# Metrics of a run

Counts of a run in the text format of monitoring systems: families of samples by name, each with a line of help and a
line with its type, and the samples of a family by the value of their label.
-/

namespace CliffordT.Metrics

/-- What the samples of a family are. -/
inductive Kind where
  | counter
  | gauge
  | histogram
deriving DecidableEq, Repr

/-- The name of a kind. -/
def Kind.name : Kind → String
  | .counter => "counter"
  | .gauge => "gauge"
  | .histogram => "histogram"

/-- A number with what is added to the name of its family and its labels. -/
structure Sample where
  suffix : String
  labels : List (String × String)
  value : Float

/-- Samples under one name. -/
structure Family where
  name : String
  help : String
  kind : Kind
  samples : List Sample

/-- A number in a sample. -/
def number (x : Float) : String := Decimal.Style.general.write x

/-- The line of a sample. -/
def Sample.line (name : String) (s : Sample) : String :=
  let labels :=
    if s.labels.isEmpty then ""
    else "\x7b" ++ ",".intercalate (s.labels.map fun (k, v) => k ++ "=\"" ++ v ++ "\"") ++ "\x7d"
  name ++ s.suffix ++ labels ++ " " ++ number s.value ++ "\n"

/-- The lines of a family; none if it has no samples. -/
def Family.text (f : Family) : String :=
  if f.samples.isEmpty then ""
  else
    "# HELP " ++ f.name ++ " " ++ f.help ++ "\n# TYPE " ++ f.name ++ " " ++ f.kind.name ++ "\n" ++
      String.join (f.samples.map fun s => s.line f.name)

/-- A sample without a label. -/
def single (n : Nat) : List Sample := [⟨"", [], Float.ofNat n⟩]

/-- The upper bounds of the classes of durations in seconds: a thousandth, and each four times the one before. -/
def bounds : List Float := (List.range 12).map fun k => 0.001 * Float.ofNat (Nat.pow 4 k)

/-- A duration in seconds. -/
def seconds (d : Duration) : Float :=
  Float.ofInt (d.nanoseconds.tdiv 1000000000) + Float.ofInt (d.nanoseconds.tmod 1000000000) / 1e9

/-- The samples of one duration: for every bound how many durations it does not exceed, their sum and their number. -/
def durationSamples (stage : String) (d : Duration) : List Sample :=
  let s := seconds d
  bounds.map (fun b => ⟨"_bucket", [("stage", stage), ("le", number b)], if s ≤ b then 1 else 0⟩) ++
    [⟨"_bucket", [("stage", stage), ("le", "+Inf")], 1⟩, ⟨"_sum", [("stage", stage)], s⟩,
     ⟨"_count", [("stage", stage)], 1⟩]

/-- What is counted in a run. Passes stand in the order in which they ran, each with its duration. -/
structure Counts where
  bufferBytes : Nat
  passes : List (Search.Stats × Duration)
  table : DoubleTable
  canonicalMismatches : Nat
  expandedMismatches : Nat

/-- The families of a run by name. -/
def families (c : Counts) : List Family :=
  let products := (c.passes.filter fun (s, _) => s.stage = .meetInTheMiddle).foldl (fun n (s, _) => n + s.products) 0
  [⟨"phasegate_buckets_expected", "Canonical buckets (points/8)", .gauge, single c.table.phaseCount⟩,
   ⟨"phasegate_buckets_found", "Canonical buckets holding an entry", .gauge, single c.table.found⟩,
   ⟨"phasegate_buffer_bytes", "Approximate matrix buffer footprint", .gauge, single c.bufferBytes⟩,
   ⟨"phasegate_candidates_total", "Candidates offered to the phase table", .counter, single c.table.candidates⟩,
   ⟨"phasegate_completions_tested_total", "Completion tests by search stage", .counter,
    c.passes.map fun (s, _) => ⟨"", [("stage", s.stage.name)], Float.ofNat s.tested⟩⟩,
   ⟨"phasegate_mitm_products_total", "Prefix/suffix products formed by meet-in-the-middle", .counter, single products⟩,
   ⟨"phasegate_rejected_total", "Candidates that lost to a stored entry", .counter, single c.table.rejected⟩,
   ⟨"phasegate_replacements_total", "Bucket entries replaced by a better candidate", .counter,
    single c.table.replacements⟩,
   ⟨"phasegate_stage_duration_seconds", "Wall time of each search stage", .histogram,
    c.passes.flatMap fun (s, d) => durationSamples s.stage.name d⟩,
   ⟨"phasegate_verification_mismatches", "Verification mismatches by pass", .gauge,
    [⟨"", [("pass", "canonical")], Float.ofNat c.canonicalMismatches⟩,
     ⟨"", [("pass", "expanded")], Float.ofNat c.expandedMismatches⟩]⟩]

/-- The metrics of a run. -/
def text (c : Counts) : String := String.join ((families c).map Family.text)

end CliffordT.Metrics
