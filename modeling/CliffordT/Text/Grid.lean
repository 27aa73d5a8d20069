import CliffordT.Text.Width

/-!
# Tables of two columns

A table has a heading and rows, with rules above and below both. Every cell is as wide on the screen as the widest of
its column. Headings stand in the middle and all else on the left. A text of several lines makes its row higher. The
screen may be one for East Asian languages.
-/

namespace CliffordT.Grid

/-- A row. -/
abbrev Row := String × String

/-- Blanks. -/
def blanks (n : Nat) : String := String.ofList (List.replicate n ' ')

/-- A text on the left of a cell. -/
def left (eastAsian : Bool) (width : Nat) (s : String) : String := s ++ blanks (width - Text.width eastAsian s)

/-- A text in the middle of a cell; of an odd number of blanks one more is on the right. -/
def middle (eastAsian : Bool) (width : Nat) (s : String) : String :=
  let gap := width - Text.width eastAsian s
  blanks (gap / 2) ++ s ++ blanks (gap - gap / 2)

/-- The lines of a cell. -/
def lines (s : String) : List String := s.splitOn "\n"

/-- The width of a cell. -/
def width (eastAsian : Bool) (s : String) : Nat := ((lines s).map (Text.width eastAsian)).foldl max 0

/-- A rule over columns of these widths. -/
def rule (a b : Nat) : String :=
  let dashes (n : Nat) : String := String.ofList (List.replicate (n + 2) '-')
  "+" ++ dashes a ++ "+" ++ dashes b ++ "+\n"

/-- One line of a row. -/
def line (a b : String) : String := "| " ++ a ++ " | " ++ b ++ " |\n"

/-- The cells of two columns side by side; the shorter column is filled up. -/
def pairUp : List String → List String → List (String × String)
  | [], [] => []
  | a :: as, [] => (a, "  ") :: pairUp as []
  | [], b :: bs => ("  ", b) :: pairUp [] bs
  | a :: as, b :: bs => (a, b) :: pairUp as bs

/-- The lines of a row. -/
def row (eastAsian : Bool) (wa wb : Nat) (r : Row) : String :=
  String.join ((pairUp (lines r.1) (lines r.2)).map fun (a, b) => line (left eastAsian wa a) (left eastAsian wb b))

/-- The table with a heading and rows. -/
def render (eastAsian : Bool) (heading : Row) (rows : List Row) : String :=
  let wa := ((heading :: rows).map fun r => width eastAsian r.1).foldl max 0
  let wb := ((heading :: rows).map fun r => width eastAsian r.2).foldl max 0
  let between := rule wa wb
  between ++ line (middle eastAsian wa heading.1) (middle eastAsian wb heading.2) ++ between ++
    String.join (rows.map (row eastAsian wa wb)) ++ between

end CliffordT.Grid
