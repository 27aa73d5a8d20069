import CliffordT.Yaml.Token.Gap

/-!
# Quoted YAML scalars

In single quotes a quote is written twice. In double quotes a backslash escapes characters, gives a character by its
number, or joins two lines. A mark of a document may not stand inside.
-/

namespace CliffordT.Yaml

/-- The character that a letter stands for behind a backslash. -/
def escape? (c : Char) : Option Char :=
  match c with
  | '0' => some (Char.ofNat 0)
  | 'a' => some (Char.ofNat 7)
  | 'b' => some (Char.ofNat 8)
  | 't' => some '\t'
  | '\t' => some '\t'
  | 'n' => some '\n'
  | 'v' => some (Char.ofNat 11)
  | 'f' => some (Char.ofNat 12)
  | 'r' => some '\r'
  | 'e' => some (Char.ofNat 27)
  | ' ' => some ' '
  | '"' => some '"'
  | '\'' => some '\''
  | '/' => some '/'
  | '\\' => some '\\'
  | 'N' => some (Char.ofNat 0x85)
  | '_' => some (Char.ofNat 0xa0)
  | 'L' => some (Char.ofNat 0x2028)
  | 'P' => some (Char.ofNat 0x2029)
  | _ => none

/-- How many hexadecimal digits follow a letter behind a backslash. -/
def escapeDigits (c : Char) : Nat := if c = 'x' then 2 else if c = 'u' then 4 else if c = 'U' then 8 else 0

/-- The value of a hexadecimal digit. -/
def hexDigit? (c : Char) : Option Nat :=
  if c.isDigit then some (c.toNat - 48)
  else if 'a' ≤ c ∧ c ≤ 'f' then some (c.toNat - 87)
  else if 'A' ≤ c ∧ c ≤ 'F' then some (c.toNat - 55)
  else none

/-- The number that hexadecimal digits give. -/
def hexNumber? (cs : List Char) : Option Nat := cs.foldlM (fun n c => (hexDigit? c).map (n * 16 + ·)) 0

/-- The character of an escape, and the place behind it. -/
def readEscape (p : Place) : Option (Char × Place) :=
  match p.rest with
  | '\\' :: e :: cs =>
    let width := escapeDigits e
    if width = 0 then (escape? e).map fun c => (c, p.steps 2)
    else if p.left < 2 + width then none
    else do
      let n ← hexNumber? (cs.take width)
      if n.isValidChar then some (Char.ofNat n, p.steps (2 + width)) else none
  | _ => none

/-- A word inside quotes: its characters, whether an escaped line break ends it, and the place behind it. -/
def quotedWord (quote : Char) : Nat → Place → Option (List Char × Bool × Place)
  | 0, _ => none
  | fuel + 1, p =>
    match p.rest with
    | [] => some ([], false, p)
    | c :: cs =>
      if blankNext (c :: cs) then some ([], false, p)
      else if c = quote then
        if quote = '\'' && cs.head? = some '\'' then
          (quotedWord quote fuel (p.steps 2)).map fun (word, joined, p) => ('\'' :: word, joined, p)
        else some ([], false, p)
      else if c = '\\' ∧ quote = '"' then
        if (cs.head?.map isBreak).getD false then some ([], true, p.step.skipBreak)
        else do
          let (e, p) ← readEscape p
          let (word, joined, p) ← quotedWord quote fuel p
          return (e :: word, joined, p)
      else (quotedWord quote fuel p.step).map fun (word, joined, p) => (c :: word, joined, p)

/-- The text up to the closing quote, and the place behind it. -/
def quotedText (quote : Char) : Nat → Place → Option (List Char × Place)
  | 0, _ => none
  | fuel + 1, p =>
    if p.atAnyMark || p.rest.isEmpty then none
    else do
      let (word, joined, p) ← quotedWord quote (p.left + 1) p
      if p.next? = some quote then return (word, p.step)
      let (gap, p) ← Gap.read 0 (p.left + 1) (if joined then .joined else .empty) p
      let (text, p) ← quotedText quote fuel p
      return (word ++ gap.text ++ text, p)

/-- Read a scalar in quotes. -/
def readQuoted (quote : Char) (p : Place) : Option (String × Place) :=
  (quotedText quote (p.left + 1) p.step).map fun (text, p) => (String.ofList text, p)

end CliffordT.Yaml
