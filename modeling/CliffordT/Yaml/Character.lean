/-!
# Characters of YAML texts

Line breaks are the line feed, the carriage return, the next-line character and the two separators of Unicode; blanks
are the space and the tab.
-/

namespace CliffordT.Yaml

/-- Whether a character breaks lines. -/
def isBreak (c : Char) : Bool :=
  let n := c.toNat
  n = 10 || n = 13 || n = 0x85 || n = 0x2028 || n = 0x2029

/-- Whether a character is a space or a tab. -/
def isBlank (c : Char) : Bool := c = ' ' || c = '\t'

/-- Whether a blank, a line break or the end comes next. -/
def blankNext : List Char → Bool
  | [] => true
  | c :: _ => isBlank c || isBreak c

/-- Whether a line break or the end comes next. -/
def breakNext : List Char → Bool
  | [] => true
  | c :: _ => isBreak c

/-- Whether a character may stand in the name of an anchor, of a directive or of a tag's handle. -/
def isNameChar (c : Char) : Bool := c.isAlphanum || c = '_' || c = '-'

/-- Whether a character may stand in a tag. -/
def isTagChar (c : Char) : Bool :=
  isNameChar c ||
    [';', '/', '?', ':', '@', '&', '=', '+', '$', '.', ',', '!', '~', '*', '\'', '(', ')', '[', ']', '%'].contains c

/-- Whether a character may stand in a document. -/
def isAllowed (c : Char) : Bool :=
  let n := c.toNat
  n = 9 || n = 10 || n = 13 || (0x20 ≤ n && n ≤ 0x7e) || n = 0x85 || (0xa0 ≤ n && n ≠ 0xfffe && n ≠ 0xffff)

/-- Whether a character starts something else than a plain scalar. -/
def isIndicator (c : Char) : Bool :=
  ['-', '?', ':', ',', '[', ']', '\x7b', '\x7d', '#', '&', '*', '!', '|', '>', '\'', '"', '%', '@'].contains c ||
    c.toNat = 96

end CliffordT.Yaml
