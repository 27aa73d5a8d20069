import CliffordT.Toml.Basic

/-!
# Definitions in TOML

What a document defines is a tree of names. A name is defined once: a heading may name a table that other headings only
passed through, but not one that was defined before, and a pair may extend only tables that pairs of the same table
made. The head of an array of tables opens a new table, in which all names are free again.
-/

namespace CliffordT.Toml

/-- What a name stands for. -/
inductive Kind where
  | value
  | table
  | arrayTable
deriving DecidableEq, Repr

/-- A name that is in use. -/
structure Definition where
  kind : Kind
  /-- whether it was defined, and not only passed through -/
  settled : Bool
  /-- whether a pair of the current table made it -/
  byPair : Bool
deriving DecidableEq, Repr

/-- The names in use, and the table to which pairs belong. -/
structure Definitions where
  entries : List (Name × Definition)
  current : Name
deriving Repr

namespace Definitions

/-- Nothing is in use. -/
def start : Definitions := ⟨[], []⟩

/-- What a name stands for. -/
def get? (d : Definitions) (name : Name) : Option Definition := d.entries.lookup name

/-- With a new meaning of a name. -/
def put (d : Definitions) (name : Name) (definition : Definition) : Definitions :=
  { d with entries := (name, definition) :: d.entries.filter fun (n, _) => n ≠ name }

/-- Whether a name lies inside a table. -/
def isInside (table name : Name) : Bool := table.isPrefixOf name && name ≠ table

/-- Settle the tables that pairs of the current table made. -/
def settle (d : Definitions) : Definitions :=
  { d with
    entries := d.entries.map fun (name, e) =>
      if isInside d.current name && e.byPair then (name, { e with settled := true, byPair := false }) else (name, e) }

/-- Forget all names inside a table. -/
def clear (d : Definitions) (table : Name) : Definitions :=
  { d with entries := d.entries.filter fun (name, _) => !isInside table name }

/-- The names on the way to a name, the shortest first. -/
def waypoints (name : Name) : List Name := (List.range (name.length - 1)).map fun k => name.take (k + 1)

/-- Pass through the tables in front of a heading's last part. -/
def passThrough (d : Definitions) (name : Name) : Option Definitions :=
  (waypoints name).foldlM (fun d n =>
    match d.get? n with
    | none => some (d.put n ⟨.table, false, false⟩)
    | some e => if e.kind = .value then none else some d) d

/-- Define a table by its heading. -/
def addTable (d : Definitions) (name : Name) : Option Definitions := do
  let d ← d.settle.passThrough name
  match d.get? name with
  | some e => if e.kind ≠ .table ∨ e.settled then none else pure ()
  | none => pure ()
  return { d.put name ⟨.table, true, false⟩ with current := name }

/-- Define one more table of an array by its heading. -/
def addArrayTable (d : Definitions) (name : Name) : Option Definitions := do
  let d ← d.settle.passThrough name
  match d.get? name with
  | some e => if e.kind ≠ .arrayTable then none else return { d.clear name with current := name }
  | none => return { d.put name ⟨.arrayTable, true, false⟩ with current := name }

/-- Define the name of a pair in the current table. -/
def addName (d : Definitions) (name : Name) : Option Definitions := do
  let path := d.current ++ name
  let d ← ((waypoints name).map (d.current ++ ·)).foldlM (fun d n =>
    match d.get? n with
    | none => some (d.put n ⟨.table, false, true⟩)
    | some e => if e.kind ≠ .table ∨ e.settled then none else some d) d
  if (d.get? path).isSome then none else return d.put path ⟨.value, false, true⟩

end Definitions

mutual

/-- Whether the names inside a value are defined once each. -/
def Value.isSound : Value → Bool
  | .array items => soundItems items
  | .inline members => soundMembers .start members
  | _ => true

/-- Whether the names inside some values are defined once each. -/
def soundItems : List Value → Bool
  | [] => true
  | item :: items => item.isSound && soundItems items

/-- Whether the members of an inline table are defined once each. -/
def soundMembers : Definitions → List (Name × Value) → Bool
  | _, [] => true
  | d, (name, value) :: members =>
    match d.addName name with
    | none => false
    | some d => value.isSound && soundMembers d members

end

/-- Add what a statement defines. -/
def Definitions.add (d : Definitions) : Statement → Option Definitions
  | .pair name value => if value.isSound then d.addName name else none
  | .table name => d.addTable name
  | .arrayTable name => d.addArrayTable name

/-- Whether the statements of a document define every name once. -/
def isSound (statements : List Statement) : Bool := (statements.foldlM Definitions.add Definitions.start).isSome

end CliffordT.Toml
