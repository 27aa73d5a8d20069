/-!
# Bytes read as UTF-8

Bytes are read as characters one after the other. A byte that does not belong to a character stands alone; where a text
is needed, the replacement character takes its place.
-/

namespace CliffordT.Text

/-- A part of some bytes: a character, or a byte that belongs to none. -/
inductive Part where
  | char (c : Char)
  | stray (b : UInt8)
deriving DecidableEq, Repr

/-- What takes the place of a stray byte in a text. -/
def replacement : Char := Char.ofNat 0xfffd

/-- The character of a part. -/
def Part.toChar : Part → Char
  | .char c => c
  | .stray _ => replacement

/-- The character at the front of some bytes, and how many bytes it takes. -/
def leadingChar? (bytes : List UInt8) : Option (Char × Nat) :=
  let ofLength? (n : Nat) : Option (Char × Nat) :=
    if bytes.length < n then none
    else
      match (String.fromUTF8? ⟨(bytes.take n).toArray⟩).map String.toList with
      | some [c] => some (c, n)
      | _ => none
  [1, 2, 3, 4].findSome? ofLength?

/-- The parts of some bytes, of which `skip` belong to a character that was read before. -/
def partsAfter : Nat → List UInt8 → List Part
  | _, [] => []
  | skip + 1, _ :: bytes => partsAfter skip bytes
  | 0, b :: bytes =>
    match leadingChar? (b :: bytes) with
    | some (c, n) => .char c :: partsAfter (n - 1) bytes
    | none => .stray b :: partsAfter 0 bytes

/-- The parts of some bytes. -/
def parts (bytes : List UInt8) : List Part := partsAfter 0 bytes

/-- The text of some bytes, with the replacement character for every stray byte. -/
def ofBytes (bytes : List UInt8) : String :=
  match String.fromUTF8? ⟨bytes.toArray⟩ with
  | some s => s
  | none => String.ofList ((parts bytes).map Part.toChar)

end CliffordT.Text
