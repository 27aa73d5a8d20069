/-!
# Storage precision

Matrices are stored with all bits of a double or rounded to single precision.
-/

namespace CliffordT

/-- How matrices are stored. -/
inductive Precision where
  | single
  | double
deriving DecidableEq, Repr

/-- A name that is no precision, or a code that is none. -/
inductive PrecisionError where
  | unknownName
  | unknownCode
deriving DecidableEq, Repr

/-- The wording of a precision error. -/
def PrecisionError.message : PrecisionError → String
  | .unknownName => "matbuf: unknown precision"
  | .unknownCode => "matbuf: WithPrecision: unknown precision"

namespace Precision

/-- The name of a precision. -/
def name : Precision → String
  | .single => "single"
  | .double => "double"

/-- Bytes that one matrix takes. -/
def bytes : Precision → Nat
  | .single => 32
  | .double => 64

/-- The precision of a name, of the number of bits in a part, or of a float type of that many bits. -/
def ofName (s : String) : Except PrecisionError Precision :=
  if s = "single" ∨ s = "32" ∨ s = "float32" then .ok .single
  else if s = "double" ∨ s = "64" ∨ s = "float64" then .ok .double
  else .error .unknownName

/-- Code 0 is single and code 1 is double. -/
def code : Precision → Int
  | .single => 0
  | .double => 1

/-- The precision of a code. -/
def ofCode (n : Int) : Except PrecisionError Precision :=
  if n = 0 then .ok .single else if n = 1 then .ok .double else .error .unknownCode

/-- The name shown for a code. A code that is no precision shows as single. -/
def codeName (n : Int) : String :=
  match ofCode n with
  | .ok p => p.name
  | .error _ => name .single

end Precision

end CliffordT
