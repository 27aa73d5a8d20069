import CliffordT.Text.Moment

/-!
# TOML documents

A document is a list of statements: pairs of a name and a value, and the headings of tables. Names have parts, and a
heading says to which table the pairs below it belong.
-/

namespace CliffordT.Toml

/-- A name in its parts. -/
abbrev Name := List String

/-- A date, a time of day or both, with or without a zone. -/
inductive Time where
  | date (d : Date)
  | clock (c : Clock)
  | both (d : Date) (c : Clock)
  | moment (m : Moment)
deriving DecidableEq, Repr

/-- The text of a time. -/
def Time.text : Time → String
  | .date d => d.text
  | .clock c => c.text
  | .both d c => d.text ++ "T" ++ c.text
  | .moment m => m.text

/-- A value. -/
inductive Value where
  | text (s : String)
  | int (n : Int)
  | float (x : Float)
  | bool (b : Bool)
  | time (t : Time)
  | array (items : List Value)
  | inline (members : List (Name × Value))

/-- A statement of a document. -/
inductive Statement where
  | pair (name : Name) (value : Value)
  /-- the heading of a table -/
  | table (name : Name)
  /-- the heading of one more table of an array -/
  | arrayTable (name : Name)

end CliffordT.Toml
