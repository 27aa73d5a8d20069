import CliffordT.Run.Basic
import CliffordT.Text.Grid

/-!
# Summaries

What a run or an expansion did, as a table for the reader: counts, mismatches, the buckets that are missing and the
files that were written. The screen may be one for East Asian languages.
-/

namespace CliffordT.Summary

/-- The heading of all summaries. -/
def heading : Grid.Row := ("METRIC", "VALUE")

/-- How many missing buckets are listed. -/
def maxListed : Nat := 16

/-- The missing buckets with their angles in degrees, the first ones by name and the others by number. -/
def missingRows (t : DoubleTable) : List Grid.Row :=
  let missing := t.missing
  if missing.isEmpty then []
  else
    let listed := (missing.zip t.missingDegrees).map fun (b, angle) =>
      toString b ++ " (" ++ Decimal.fixed 3 angle ++ "°)"
    let more :=
      if maxListed < missing.length then ["… " ++ toString (missing.length - maxListed) ++ " more"] else []
    [("missing", ", ".intercalate (listed.take maxListed ++ more))]

/-- How many of the buckets were found. -/
def foundText (t : DoubleTable) : String := toString t.found ++ " / " ++ toString t.phaseCount

/-- A number of bytes in units of `2 ^ 20`. -/
def mebibytes (n : Int) : String := Decimal.fixed 1 (Float.ofInt n / 1048576) ++ " MiB"

/-- The files that the parameters ask for. -/
def artifactRows (c : Config) : List Grid.Row :=
  ([("diagnostics", c.diagnostics), ("table", c.table), ("metrics", c.metricsFile)].filter fun r => !r.2.isEmpty).map
    fun (name, path) => (name, path.text)

/-- What the summary of a run tells. The counts are integers, whatever they count. -/
structure Facts where
  config : Config
  table : DoubleTable
  visited : Int
  hits : Int
  /-- products and hits of the second pass, if it ran -/
  meet : Option (Int × Int)
  timedOut : Bool
  mismatches : Int
  bufferBytes : Int

/-- What the summary of a run tells about its result. -/
def Facts.ofResult (r : Run.Result) : Facts where
  config := r.config
  table := r.table
  visited := r.exhaustive.visited
  hits := r.exhaustive.hits
  meet := r.meet.map fun m => (m.products, m.hits)
  timedOut := r.timedOut
  mismatches := r.mismatches
  bufferBytes := r.bufferBytes

/-- The rows of a run. -/
def rows (runId : String) (f : Facts) (elapsed : Duration) : List Grid.Row :=
  let meet := match f.meet with
    | some (products, hits) => [("meet-in-the-middle", "products " ++ toString products ++ ", hits " ++ toString hits)]
    | none => []
  [("run", runId), ("points", toString f.table.points), ("buckets found", foundText f.table),
   ("exhaustive", "visited " ++ toString f.visited ++ ", hits " ++ toString f.hits)] ++
    meet ++
    [("replacements", toString f.table.replacements), ("mismatches", toString f.mismatches),
     ("buffer", mebibytes f.bufferBytes), ("elapsed", elapsed.roundMillisecond.text)] ++
    (if f.timedOut then [("timed out", "after " ++ f.config.timeout.text)] else []) ++
    missingRows f.table ++ artifactRows f.config

/-- The summary of a run. -/
def text (eastAsian : Bool) (runId : String) (f : Facts) (elapsed : Duration) : String :=
  Grid.render eastAsian heading (rows runId f elapsed)

/-- The rows of an expansion: how many entries and slots were checked, and how many mismatches there are. -/
def expansionRows (t : DoubleTable) (entries slots mismatches : Int) : List Grid.Row :=
  [("points", toString t.points), ("buckets found", foundText t), ("canonical checked", toString entries),
   ("slots checked", toString slots), ("mismatches", toString mismatches)] ++ missingRows t

/-- The summary of an expansion. -/
def expansion (eastAsian : Bool) (t : DoubleTable) (entries slots mismatches : Int) : String :=
  Grid.render eastAsian heading (expansionRows t entries slots mismatches)

end CliffordT.Summary
