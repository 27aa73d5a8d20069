/-!
# Base 64

Bytes in groups of three are written as four of sixty-four characters; a shorter group at the end is filled up with
equality signs. Line breaks do not count.
-/

namespace CliffordT.Text

/-- The value of a character of the alphabet. -/
def sextet? (c : Char) : Option Nat :=
  if c.isUpper then some (c.toNat - 65)
  else if c.isLower then some (c.toNat - 71)
  else if c.isDigit then some (c.toNat + 4)
  else if c = '+' then some 62
  else if c = '/' then some 63
  else none

/-- The first bytes of three in a number of 24 bits. -/
def leadingBytes (count : Nat) (n : Nat) : List UInt8 :=
  [UInt8.ofNat (n / 65536), UInt8.ofNat (n / 256 % 256), UInt8.ofNat (n % 256)].take count

/-- The bytes of groups of four characters. -/
def groupBytes? : List Char → Option (List UInt8)
  | [] => some []
  | [a, b, '=', '='] => do
    let n := (← sextet? a) * 262144 + (← sextet? b) * 4096
    return leadingBytes 1 n
  | [a, b, c, '='] => do
    let n := (← sextet? a) * 262144 + (← sextet? b) * 4096 + (← sextet? c) * 64
    return leadingBytes 2 n
  | a :: b :: c :: d :: rest => do
    let n := (← sextet? a) * 262144 + (← sextet? b) * 4096 + (← sextet? c) * 64 + (← sextet? d)
    return leadingBytes 3 n ++ (← groupBytes? rest)
  | _ => none

/-- The bytes that a text in base 64 gives; nothing if it is none. -/
def base64? (s : String) : Option (List UInt8) := groupBytes? (s.toList.filter fun c => c ≠ '\n' && c ≠ '\r')

end CliffordT.Text
