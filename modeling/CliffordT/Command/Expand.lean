import CliffordT.Command.Reply
import CliffordT.Run.Summary

/-!
# Expanding a record

The command `expand` reads the record of a table, expands and verifies it, and writes the words of all slots if it is
told where. Nothing is searched.
-/

namespace CliffordT.Command

/-- The line about a mismatch. -/
def mismatchLine (m : Verify.Mismatch Float Float) : String :=
  "bucket " ++ toString m.bucket ++ " slot " ++
    (match m.slot with | some s => toString s | none => "-1") ++ " " ++ Text.quoted m.gates.text ++ ": " ++
    m.reason.message ++ " (expected " ++ Decimal.fixed 6 m.expected ++ ", actual " ++ Decimal.fixed 6 m.actual ++
    ", residual " ++ Decimal.rounded 3 m.residual ++ ")\n"

/-- Write the words of all slots if a path is given. -/
def writeWords (fs : Files) (path : RawText) (full : List Word) : Except Artifact.Setback Files :=
  if path.isEmpty then .ok fs else Artifact.writeTable fs path full

/-- Expand and verify a table. -/
def expandTable (eastAsian : Bool) (fs : Files) (t : DoubleTable) (table : RawText) (epsilon : Float)
    (strict : Bool) : Reply :=
  let check := Verify.Check.within epsilon
  let full := t.expand
  let canonical := Verify.canonical check t
  let expanded := Verify.expanded check t full
  let notes := String.join ((canonical.mismatches ++ expanded.mismatches).map mismatchLine)
  match writeWords fs table full with
  | .error e => Reply.failed ⟨.failed, e.cause.message.text⟩ "" notes e.files
  | .ok fs =>
    let mismatches := canonical.mismatches.length + expanded.mismatches.length
    let summary := Summary.expansion eastAsian t canonical.checked expanded.checked mismatches
    if strict && strictFails t mismatches then Reply.failed (strictFailure t mismatches) summary notes fs
    else ⟨.done, summary, notes, fs⟩

/-- How a command ends whose record cannot be read. -/
def recordExit : ArtifactError → Exit
  | .incomparable _ => .broken
  | _ => .unfit

/-- Read a record, expand and verify it, and report to a screen that may be one for East Asian languages. -/
def expandRecord (eastAsian : Bool) (fs : Files) (path table : RawText) (epsilon : Float) (strict : Bool) : Reply :=
  match Artifact.loadTable fs path with
  | .error e => Reply.failed ⟨recordExit e, e.message.text⟩ "" "" fs
  | .ok t => expandTable eastAsian fs t table epsilon strict

end CliffordT.Command
