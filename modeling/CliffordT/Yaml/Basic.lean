/-!
# YAML trees

A document to be written is a tree of scalars, sequences and mappings. A scalar is a text, or a number or a null that is
already in its written form.
-/

namespace CliffordT

/-- A YAML tree to be written. -/
inductive Yaml where
  /-- a text, or something that is written as it is -/
  | scalar (isText : Bool) (text : String)
  | sequence (items : List Yaml)
  | mapping (members : List (Yaml × Yaml))

end CliffordT
