import CliffordT.Text.Printable

/-!
# Quoted texts

A text is quoted for messages and log lines between double quotes, a single byte between single quotes. The quote and
the backslash are escaped by a backslash, the usual control characters by a letter, other characters that are not
printable by their number in hexadecimal.
-/

namespace CliffordT.Text

/-- A hexadecimal digit. -/
def hexDigit (n : Nat) : Char := if n < 10 then Char.ofNat (48 + n) else Char.ofNat (87 + n)

/-- The last `width` hexadecimal digits of a number. -/
def hex : Nat → Nat → List Char
  | 0, _ => []
  | width + 1, n => hex width (n / 16) ++ [hexDigit (n % 16)]

/-- The letter that escapes a control character. -/
def controlLetter? (n : Nat) : Option Char :=
  match n with
  | 7 => some 'a'
  | 8 => some 'b'
  | 9 => some 't'
  | 10 => some 'n'
  | 11 => some 'v'
  | 12 => some 'f'
  | 13 => some 'r'
  | _ => none

/-- A character inside quotes. -/
def escaped (quote : Char) (c : Char) : List Char :=
  if c = quote ∨ c = '\\' then ['\\', c]
  else if isPrintable c then [c]
  else
    match controlLetter? c.toNat with
    | some l => ['\\', l]
    | none =>
      if c.toNat < 32 ∨ c.toNat = 127 then '\\' :: 'x' :: hex 2 c.toNat
      else if c.toNat < 0x10000 then '\\' :: 'u' :: hex 4 c.toNat
      else '\\' :: 'U' :: hex 8 c.toNat

/-- A text between double quotes. -/
def quoted (s : String) : String := String.ofList ('"' :: (s.toList.flatMap (escaped '"') ++ ['"']))

/-- A byte, as the character of that number, between single quotes. -/
def quotedByte (b : UInt8) : String :=
  String.ofList ('\'' :: (escaped '\'' (Char.ofNat b.toNat) ++ ['\'']))

end CliffordT.Text
