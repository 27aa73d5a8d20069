import CliffordT.Command.Request
import CliffordT.Double

/-!
# What a command leaves

A command ends with a code, what it wrote to both outputs, and the files. A failure is reported on the standard error
output in the name of the program.
-/

namespace CliffordT.Command

/-- How a command ended. -/
inductive Exit where
  | done
  | failed
  /-- parameters or a record that do not fit -/
  | unfit
  /-- a table that is incomplete or wrong where it must not be -/
  | strict
  /-- a document for which there is no rule -/
  | broken
deriving DecidableEq, Repr

/-- The code of an end. -/
def Exit.code : Exit → Nat
  | .done => 0
  | .failed => 1
  | .unfit => 2
  | .strict => 3
  | .broken => 2

/-- A failure: how the command ends and what is said about it. -/
structure Failure where
  exit : Exit
  message : String
deriving DecidableEq, Repr

/-- What a command leaves. -/
structure Reply where
  exit : Exit
  stdout : String
  stderr : String
  files : Files

/-- The report of a failure. -/
def Failure.report (f : Failure) : String := programName ++ ": " ++ f.message ++ "\n"

/-- The reply of a command that fails after it wrote something. -/
def Reply.failed (f : Failure) (stdout stderr : String) (fs : Files) : Reply :=
  ⟨f.exit, stdout, stderr ++ f.report, fs⟩

/-- Whether a table is incomplete or wrong. -/
def strictFails (t : DoubleTable) (mismatches : Nat) : Bool := !t.complete || 0 < mismatches

/-- The failure of an incomplete or wrong table where it must not be. -/
def strictFailure (t : DoubleTable) (mismatches : Nat) : Failure :=
  ⟨.strict, "strict: " ++ toString t.found ++ "/" ++ toString t.phaseCount ++ " buckets, " ++ toString mismatches ++
    " mismatches"⟩

end CliffordT.Command
