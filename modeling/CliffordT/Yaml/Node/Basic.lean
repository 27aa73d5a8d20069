import CliffordT.Yaml.Meaning

/-!
# YAML nodes

A document is a tree of nodes, some of which have anchors. Scalars and collections have tags; an alias stands for the
node with its anchor, which begins before the alias. If the alias is inside that node, the node contains itself.
-/

namespace CliffordT.Yaml

/-- A node of a document. -/
inductive Node where
  | scalar (tag : Tag) (text : String)
  | sequence (tag : Tag) (items : List Node)
  | mapping (tag : Tag) (members : List (Node × Node))
  /-- an alias with its number in the document, its name and the number of its anchor -/
  | alias (number : Nat) (name : String) (anchor : Nat)

namespace Node

/-- A missing scalar. -/
def missing : Node := .scalar .untagged ""

/-- The node of a scalar. Without a tag, one in quotes or written as a block is a text, and two angle brackets are the
key that merges other mappings. -/
def ofScalar (tag : Tag) (plain : Bool) (text : String) : Node :=
  if tag ≠ .untagged then .scalar tag text
  else if !plain then .scalar .text text
  else if text = "<<" then .scalar .merge text
  else .scalar .untagged text

end Node

/-- A document. -/
structure Document where
  root : Node
  /-- the nodes with anchors by their numbers -/
  anchored : Array Node
  /-- how many aliases there are -/
  aliases : Nat

/-- The node with an anchor. -/
def Document.target (doc : Document) (anchor : Nat) : Node := doc.anchored.getD anchor .missing

end CliffordT.Yaml
