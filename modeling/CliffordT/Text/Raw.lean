import CliffordT.Text.Quoted
import CliffordT.Text.Utf8

/-!
# Texts as bytes

What comes from outside is a text in most cases, but bytes that were given in base 64 need not be UTF-8. Such a value is
kept as its bytes. It is shown as a text with replacement characters, and in quotes with every byte that it has.
-/

namespace CliffordT

/-- A text as its bytes. -/
structure RawText where
  bytes : List UInt8
deriving DecidableEq, Repr

namespace RawText

/-- The bytes of a text. -/
def ofString (s : String) : RawText := ⟨s.toUTF8.toList⟩

instance instCoeString : Coe String RawText := ⟨ofString⟩

instance instAppend : Append RawText := ⟨fun s t => ⟨s.bytes ++ t.bytes⟩⟩

/-- Nothing. -/
def empty : RawText := ⟨[]⟩

instance instInhabited : Inhabited RawText := ⟨empty⟩

/-- Whether there are no bytes. -/
def isEmpty (t : RawText) : Bool := t.bytes.isEmpty

/-- How many bytes there are. -/
def size (t : RawText) : Nat := t.bytes.length

/-- The text, with the replacement character for every stray byte. -/
def text (t : RawText) : String := Text.ofBytes t.bytes

/-- A part inside double quotes. A stray byte is written as its number. -/
def escapedPart : Text.Part → List Char
  | .char c => Text.escaped '"' c
  | .stray b => '\\' :: 'x' :: Text.hex 2 b.toNat

/-- The text between double quotes. -/
def quoted (t : RawText) : String := String.ofList ('"' :: ((Text.parts t.bytes).flatMap escapedPart ++ ['"']))

/-- The texts between characters of one kind, each of one byte. There is one more than there are such characters. -/
def split (mark : Char) (t : RawText) : List RawText :=
  (t.bytes.splitOn (UInt8.ofNat mark.toNat)).map RawText.mk

/-- Texts in a row, with another one between them. -/
def intercalate (between : RawText) (ts : List RawText) : RawText :=
  ⟨between.bytes.intercalate (ts.map RawText.bytes)⟩

end RawText

end CliffordT
