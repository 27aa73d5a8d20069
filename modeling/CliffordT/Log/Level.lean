import CliffordT.Text.Letters
import CliffordT.Text.Raw

/-!
# Levels of log records

A logger set to a level writes the records of that level and of the graver ones.
-/

namespace CliffordT.Log

/-- How grave a record is, the gravest first. -/
inductive Level where
  | panic
  | fatal
  | error
  | warning
  | info
  | debug
  | trace
deriving DecidableEq, Repr

namespace Level

/-- The place of a level, counted from the gravest. -/
def rank : Level → Nat
  | panic => 0
  | fatal => 1
  | error => 2
  | warning => 3
  | info => 4
  | debug => 5
  | trace => 6

/-- The name of a level. -/
def name : Level → String
  | panic => "panic"
  | fatal => "fatal"
  | error => "error"
  | warning => "warning"
  | info => "info"
  | debug => "debug"
  | trace => "trace"

/-- The level of a name, in any case of letters. -/
def ofName? (s : String) : Option Level :=
  match Text.lower s with
  | "panic" => some panic
  | "fatal" => some fatal
  | "error" => some error
  | "warn" => some warning
  | "warning" => some warning
  | "info" => some info
  | "debug" => some debug
  | "trace" => some trace
  | _ => none

/-- The wording for a name that is no level. -/
def unknownMessage (t : RawText) : String := "not a valid logrus Level: " ++ t.quoted

/-- Whether a record of a level stops the program once it is written. -/
def stops (record : Level) : Bool := record = panic

/-- Whether a logger of a level writes records of another. -/
def writes (set record : Level) : Bool := record.rank ≤ set.rank

end Level

end CliffordT.Log
