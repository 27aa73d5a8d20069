import CliffordT.Matrix.Complex
import CliffordT.Decimal.Format
import CliffordT.Text.Quoted

/-!
# Texts of matrices and gates

A matrix is written with three places per part, for records, or with the shortest digits that read back. A byte that
is no gate is named in messages by its quoted form.
-/

namespace CliffordT

namespace Amplitude

/-- Both parts with three places, the sign of the imaginary part always written. -/
def short (x : Amplitude) : String :=
  Decimal.fixedSigned 3 false x.re ++ Decimal.fixedSigned 3 true x.im ++ "i"

/-- Both parts with their shortest digits, in parentheses. -/
def text (x : Amplitude) : String :=
  "(" ++ Decimal.Style.general.write x.re ++ Decimal.Style.general.writeSigned true x.im ++ "i)"

end Amplitude

namespace Mat

/-- The rows of a matrix in brackets. -/
def rows (m : Mat String) : String :=
  "[[" ++ m.a ++ " " ++ m.b ++ "] [" ++ m.c ++ " " ++ m.d ++ "]]"

/-- The matrix with three places per part. -/
def short (m : Matrix) : String := (m.map Amplitude.short).rows

/-- The matrix with its shortest digits. -/
def text (m : Matrix) : String := (m.map Amplitude.text).rows

end Mat

namespace Gate

/-- The wording for a byte that is no gate. -/
def unknownMessage (b : UInt8) : String := Text.quotedByte b ++ ": unitary: unknown gate mnemonic"

end Gate

namespace UnknownGate

/-- The wording of a replay error. -/
def message (e : UnknownGate) : String :=
  "unitary: Replay offset " ++ toString e.offset ++ ": " ++ Gate.unknownMessage e.byte

end UnknownGate

end CliffordT
