import CliffordT.Numeric.Binary64

/-!
# Reading numbers

The grammar of integers and doubles in flags, variables and files. An integer may carry a base prefix (`0x`, `0o`,
`0b`, or a bare leading `0` for octal) and underscores between digits; it has to fit 64 bits. A double is decimal or
hexadecimal with a binary exponent, or spelled `inf`, `infinity` or `nan`; it is rounded to nearest, and one beyond the
range is an error. A number that is not read is a syntax error or a range error (`NumberError`).
-/

namespace CliffordT.Decimal

open CliffordT.Numeric

/-- Why a text is not read as a number. -/
inductive NumberError where
  | syntaxFault
  | outOfRange
deriving DecidableEq, Repr

/-- The wording of a number error. -/
def NumberError.message : NumberError → String
  | .syntaxFault => "invalid syntax"
  | .outOfRange => "value out of range"

/-- The value of a digit up to `f`. -/
def digitValue? (c : Char) : Option Nat :=
  if '0' ≤ c ∧ c ≤ '9' then some (c.toNat - 48)
  else if 'a' ≤ c ∧ c ≤ 'z' then some (c.toNat - 87)
  else if 'A' ≤ c ∧ c ≤ 'Z' then some (c.toNat - 55)
  else none

/-- The letter in lower case, for letters of the Latin alphabet. -/
def lowerLetter (c : Char) : Char := c.toLower

/-- Split off a sign. -/
def splitSign : List Char → Bool × List Char
  | '-' :: cs => (true, cs)
  | '+' :: cs => (false, cs)
  | cs => (false, cs)

/-- What stood before a character, as far as underscores care. -/
inductive Before where
  | nothing
  | digit
  | underscore
  | other
deriving DecidableEq

/-- Whether every underscore stands between digits. -/
def underscoresFrom (hex : Bool) : Before → List Char → Bool
  | before, [] => before != .underscore
  | before, c :: cs =>
    if ('0' ≤ c ∧ c ≤ '9') ∨ (hex ∧ 'a' ≤ lowerLetter c ∧ lowerLetter c ≤ 'f') then
      underscoresFrom hex .digit cs
    else if c = '_' then before == .digit && underscoresFrom hex .underscore cs
    else before != .underscore && underscoresFrom hex .other cs

/-- Whether the underscores of a number stand between digits, where a base prefix counts as a digit. -/
def underscoresFit (cs : List Char) : Bool :=
  match (splitSign cs).2 with
  | '0' :: c :: rest =>
    if lowerLetter c = 'b' ∨ lowerLetter c = 'o' ∨ lowerLetter c = 'x' then
      underscoresFrom (lowerLetter c = 'x') .digit rest
    else underscoresFrom false .nothing ('0' :: c :: rest)
  | rest => underscoresFrom false .nothing rest

/-- The value of digits in a base, which has to fit 64 bits. The first fault from the left is the one reported. -/
def digitsValue (base : Nat) (cs : List Char) : Except NumberError Nat :=
  cs.foldlM
    (fun n c =>
      match digitValue? c with
      | none => .error .syntaxFault
      | some d =>
        if base ≤ d then .error .syntaxFault
        else if n * base + d < 0x10000000000000000 then .ok (n * base + d)
        else .error .outOfRange) 0

/-- The base that a prefix announces, and what follows it. -/
def splitBase : List Char → Nat × List Char
  | '0' :: c :: rest =>
    if rest ≠ [] ∧ lowerLetter c = 'x' then (16, rest)
    else if rest ≠ [] ∧ lowerLetter c = 'o' then (8, rest)
    else if rest ≠ [] ∧ lowerLetter c = 'b' then (2, rest)
    else (8, c :: rest)
  | cs => (10, cs)

/-- Read a natural number with an optional base prefix. -/
def readUnsigned (cs : List Char) : Except NumberError Nat :=
  if cs.isEmpty then .error .syntaxFault
  else
    let (base, digits) := splitBase cs
    match digitsValue base (digits.filter (· ≠ '_')) with
    | .error e => .error e
    | .ok n => if cs.contains '_' && !underscoresFit cs then .error .syntaxFault else .ok n

/-- Give a natural number a sign, if the result fits 64 bits. -/
def signedFit (negative : Bool) (n : Nat) : Except NumberError Int :=
  if negative then (if n ≤ 0x8000000000000000 then .ok (-(n : Int)) else .error .outOfRange)
  else if n < 0x8000000000000000 then .ok n else .error .outOfRange

/-- Read a 64-bit integer with an optional sign and base prefix. -/
def readInt (s : String) : Except NumberError Int := do
  let (negative, rest) := splitSign s.toList
  signedFit negative (← readUnsigned rest)

/-- Read a 64-bit integer with an optional sign in a given base. -/
def readIntBase (base : Nat) (s : String) : Except NumberError Int := do
  let (negative, rest) := splitSign s.toList
  if rest.isEmpty then .error .syntaxFault else signedFit negative (← digitsValue base rest)

/-- A mantissa with its digits after the point, as read. -/
structure Mantissa where
  value : Nat
  /-- digits read -/
  count : Nat
  /-- digits after the point -/
  places : Nat
  pointSeen : Bool

/-- Read the digits and the point of a mantissa in a base; underscores are skipped. -/
def readMantissa (base : Nat) : Mantissa → List Char → Mantissa × List Char
  | m, [] => (m, [])
  | m, c :: cs =>
    if c = '_' then readMantissa base m cs
    else if c = '.' then
      if m.pointSeen then (m, c :: cs) else readMantissa base { m with pointSeen := true } cs
    else
      match digitValue? c with
      | some d =>
        if d < base then
          readMantissa base
            { m with
              value := m.value * base + d
              count := m.count + 1
              places := if m.pointSeen then m.places + 1 else m.places } cs
        else (m, c :: cs)
      | none => (m, c :: cs)

/-- Read an exponent after its letter: a sign and at least one digit; underscores are skipped. Nothing if the digits
are missing or something follows them. An exponent of more than five digits is cut, which no double can tell. -/
def readExponent? (cs : List Char) : Option Int :=
  let (negative, rest) := splitSign cs
  match rest with
  | c :: _ =>
    if c.isDigit && rest.all (fun c => c.isDigit || c = '_') then
      let n : Nat := (rest.filter (· ≠ '_')).foldl (fun n c => if n < 10000 then n * 10 + (c.toNat - 48) else n) 0
      some (if negative then -(n : Int) else n)
    else none
  | [] => none

/-- The double nearest to `n · 10 ^ e`. Exponents far outside the range are settled before any power is formed. -/
def ofDecimal (n : Nat) (e : Int) : Float :=
  if n = 0 then 0
  else
    let size : Int := (Nat.log2 n : Int) * 30103 / 100000 + e
    if 400 < size then infinity
    else if size < -400 then 0
    else if 0 ≤ e then Float.ofScientific n false e.toNat
    else Float.ofScientific n true (-e).toNat

/-- The double nearest to `n · 2 ^ e`. -/
def ofBinary (n : Nat) (e : Int) : Float :=
  if n = 0 then 0
  else
    let size := (Nat.log2 n : Int) + e
    if 1100 < size then infinity else if size < -1200 then 0 else Parts.toFloat ⟨false, n, e⟩

/-- The base of the digits of a double, and what follows its mark. -/
def splitHex : List Char → Nat × List Char
  | '0' :: c :: rest => if lowerLetter c = 'x' ∧ rest ≠ [] then (16, rest) else (10, '0' :: c :: rest)
  | cs => (10, cs)

/-- The exponent behind a mantissa. A hexadecimal one has to have one. -/
def exponentOf? (base : Nat) : List Char → Option Int
  | [] => if base = 16 then none else some 0
  | c :: cs => if lowerLetter c = (if base = 16 then 'p' else 'e') then readExponent? cs else none

/-- The magnitude of a number in digits. -/
def readMagnitude (cs : List Char) : Except NumberError Float :=
  if cs.contains '_' && !underscoresFit cs then .error .syntaxFault
  else
    let (base, body) := splitHex cs
    let (m, rest) := readMantissa base ⟨0, 0, 0, false⟩ body
    if m.count = 0 then .error .syntaxFault
    else
      match exponentOf? base rest with
      | none => .error .syntaxFault
      | some x =>
        let v := if base = 16 then ofBinary m.value (x - 4 * m.places) else ofDecimal m.value (x - m.places)
        if v.isInf then .error .outOfRange else .ok v

/-- Read a double. -/
def readFloat (s : String) : Except NumberError Float :=
  let cs := s.toList
  let (negative, rest) := splitSign cs
  let word := String.ofList (rest.map lowerLetter)
  let sign (x : Float) : Float := if negative then -x else x
  if word = "inf" ∨ word = "infinity" then .ok (sign infinity)
  else if String.ofList (cs.map lowerLetter) = "nan" then .ok nan
  else (readMagnitude rest).map sign

/-- Read a truth value: `1`, `t`, `T`, `true`, `True`, `TRUE` and their opposites. -/
def readBool (s : String) : Except NumberError Bool :=
  if ["1", "t", "T", "true", "TRUE", "True"].contains s then .ok true
  else if ["0", "f", "F", "false", "FALSE", "False"].contains s then .ok false
  else .error .syntaxFault

end CliffordT.Decimal
