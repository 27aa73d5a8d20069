/-!
# YAML tokens

A text is read as tokens: the marks that open, separate and close its parts, the properties of nodes, and scalars. The
indentation of a block becomes tokens too: one where a block starts and one where it ends.
-/

namespace CliffordT.Yaml

/-- A token. -/
inductive Token where
  | streamEnd
  /-- the directive that gives the version -/
  | version (major minor : Nat)
  /-- the directive that says what a tag's handle stands for -/
  | handle (name text : String)
  | documentStart
  | documentEnd
  | blockSequence
  | blockMapping
  | blockEnd
  | flowSequence
  | flowSequenceEnd
  | flowMapping
  | flowMappingEnd
  /-- a dash in front of an item of a block sequence -/
  | item
  /-- a comma -/
  | comma
  | key
  | value
  | alias (name : String)
  | anchor (name : String)
  /-- a tag by its handle and the rest of it -/
  | tag (handle name : String)
  /-- a scalar, plain or in quotes or as a block -/
  | scalar (plain : Bool) (text : String)
deriving DecidableEq, Repr

end CliffordT.Yaml
