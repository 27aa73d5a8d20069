import CliffordT.Yaml.Node.Reader

/-!
# The values of YAML nodes

A scalar has a meaning, a sequence has items, and a mapping has members: its own and those of the mappings that it
merges. A member of its own overrides a merged one, and of several merged ones the first counts, so keys are compared
while mappings are merged (`Visits.taken`). An alias leads to the node with its anchor, and a node that contains itself
has a value only if the alias inside it is passed over (`follow`).

A visit goes through the nodes of a document in order. What does not fit the form that is asked for is noted and the
visit goes on (`noteMisfit`); what has no value at all ends it (`Fault`). A small text can hold a huge value by aliases
of aliases, so the nodes visited are counted, and a value most of which comes from aliases is refused.
-/

namespace CliffordT.Yaml

/-- Why a document gives no value. -/
inductive Fault where
  /-- it is not of the language, or not of the form that is asked for -/
  | malformed
  /-- a collection is a key where keys have to be compared -/
  | incomparable
deriving DecidableEq, Repr

/-- What a visit has come across. -/
structure Visits where
  /-- how many nodes were visited -/
  nodes : Nat
  /-- how many of them beyond an alias -/
  aliased : Nat
  /-- the numbers of the aliases that lead to the present node -/
  followed : List Nat
  /-- whether something did not fit -/
  misfit : Bool
  /-- while a mapping is merged, the keys that it may not set any more -/
  taken : Option (List Meaning)

namespace Visits

/-- The start of a visit, with the document itself as the first node. -/
def start : Visits := ⟨1, 0, [], false, none⟩

/-- Whether too many of the nodes came from aliases: nearly all of more than a thousand, or less in larger values. -/
def isExcessive (v : Visits) : Bool :=
  let low := 400000
  let high := 4000000
  100 < v.aliased && 1000 < v.nodes &&
    (if v.nodes ≤ low then 99 * v.nodes < 100 * v.aliased
      else if high ≤ v.nodes then v.nodes < 10 * v.aliased
      else v.nodes * (99 * (high - low) - 89 * (v.nodes - low)) < 100 * (high - low) * v.aliased)

end Visits

/-- A visit to nodes. -/
abbrev Visit := StateT Visits (Except Fault)

/-- Count a node. -/
def count : Visit Unit := do
  let v ← get
  let v : Visits :=
    { v with nodes := v.nodes + 1, aliased := if v.followed.isEmpty then v.aliased else v.aliased + 1 }
  if v.isExcessive then throw .malformed else set v

/-- Note that something does not fit. The visit goes on, but its result does not count. -/
def noteMisfit : Visit Unit := modify fun v => { v with misfit := true }

/-- Set the keys that are taken. -/
def setTaken (taken : Option (List Meaning)) : Visit Unit := modify fun v => { v with taken := taken }

/-- Follow an alias to a visit. One that leads to itself has no end. -/
def follow {α : Type} (number : Nat) (visit : Visit α) : Visit α := do
  count
  let followed := (← get).followed
  if followed.contains number then throw .malformed
  else
    modify fun v => { v with followed := number :: followed }
    let a ← visit
    modify fun v => { v with followed := followed }
    return a

/-- A scalar: how it is written, and what it stands for. -/
structure Scalar where
  written : String
  meaning : Meaning

/-- The scalar as a text; none for a null. What is given in base 64 is the text of its bytes. -/
def Scalar.text? (s : Scalar) : Option RawText :=
  match s.meaning with
  | .null => none
  | .text t => some t
  | _ => some s.written

/-- The value of a node. -/
inductive Value where
  | scalar (s : Scalar)
  | sequence (items : List Value)
  /-- the members in the order in which they were set; a later one overrides an earlier one with the same key -/
  | mapping (members : List (Meaning × Value))

/-- The members of a mapping that were visited, in order. A value that does not fit is none. -/
abbrev Entries := List (Meaning × Option Value)

/-- How the value of a member is visited. -/
inductive Way where
  | skip
  /-- not at all, and the member does not fit -/
  | refuse
  /-- only as a scalar -/
  | scalar
  | value
deriving DecidableEq, Repr

/-- How a member with a key is visited behind others. -/
abbrev Plan := Entries → Meaning → Way

/-- Visit a member in a way, given the two visits to its value. -/
def Way.visit (way : Way) (entries : Entries) (key : Meaning) (value : Visit (Option Value))
    (scalar : Visit (Option Scalar)) : Visit Entries :=
  match way with
  | .skip => return entries
  | .refuse => do
    noteMisfit
    return entries
  | .scalar => do return entries ++ [(key, (← scalar).map .scalar)]
  | .value => do return entries ++ [(key, ← value)]

/-- What is beyond aliases: the nodes with anchors by their numbers, their values, and the visits to their members by a
mapping that merges them, in which all keys may be texts. -/
structure Scope where
  target : Nat → Node
  value : Nat → Visit (Option Value)
  merged : Nat → Bool → Plan → Entries → Visit Entries

namespace Node

/-- What tells the keys of a mapping apart. -/
def identity : Node → Nat × String
  | .scalar _ text => (0, text)
  | .sequence _ _ => (1, "")
  | .mapping _ _ => (2, "")
  | .alias _ name _ => (3, name)

/-- Whether a node is the key that merges other mappings. -/
def isMerge : Node → Bool
  | .scalar tag text => tag = .merge && text = "<<"
  | _ => false

/-- Whether a node other than an alias is a text by its tag. -/
def isTextual : Node → Bool
  | .scalar tag text =>
    match tag, resolve text with
    | .text, _ => true
    | .merge, _ => true
    | .untagged, .text _ => true
    | _, _ => false
  | .sequence tag _ => tag = .text || tag = .merge
  | .mapping tag _ => tag = .text || tag = .merge
  | .alias _ _ _ => false

/-- Whether a node is a text by its tag. -/
def isText (target : Nat → Node) : Node → Bool
  | .alias _ _ anchor => (target anchor).isTextual
  | node => node.isTextual

/-- A node other than an alias as a scalar. A collection does not fit. -/
def plainScalar? (node : Node) : Visit (Option Scalar) := do
  count
  match node with
  | .scalar tag text =>
    match tag.meaning? text with
    | some meaning => return some ⟨text, meaning⟩
    | none => throw .malformed
  | _ =>
    noteMisfit
    return none

/-- A node as a scalar. -/
def scalar? (target : Nat → Node) : Node → Visit (Option Scalar)
  | .alias number _ anchor => follow number (target anchor).plainScalar?
  | node => node.plainScalar?

end Node

/-- Whether no two keys of a mapping are written alike. Such a mapping does not fit. -/
def keysDiffer (members : List (Node × Node)) : Visit Bool := do
  if (members.map fun (k, _) => k.identity).Nodup then return true
  else
    noteMisfit
    return false

/-- Whether a mapping merges others. -/
def merges (members : List (Node × Node)) : Bool := members.any fun (k, _) => k.isMerge

/-- Whether a key is among the keys taken, if some are. -/
def isTaken (taken : Option (List Meaning)) (key : Meaning) : Bool := (taken.getD []).any key.same

/-- The key that a scalar is among texts. -/
def textKey? (s : Option Scalar) : Option Meaning := (s.bind Scalar.text?).map .text

/-- The key that a value is. A collection is none, and `compared` says that it would have to be compared with others. -/
def plainKey? (compared : Bool) : Option Value → Visit (Option Meaning)
  | none => return none
  | some (.scalar s) => return some s.meaning
  | some _ => throw (if compared then .incomparable else .malformed)

/-- Visit the members of a mapping: its own, which may not set the keys taken so far, and then those of the mappings
that it merges. The first mapping that merges others takes all its keys for itself. -/
def visitMembers (members : List (Node × Node))
    (own : Option (List Meaning) → Visit (Entries × Option (List Meaning))) (takeKeys : Visit Unit)
    (merged : Entries → Visit Entries) : Visit Entries := do
  let outer := (← get).taken
  setTaken none
  let (entries, left) ← own outer
  setTaken left
  if !merges members then return entries
  else if outer.isSome then merged entries
  else
    setTaken (some [])
    takeKeys
    let entries ← merged entries
    setTaken none
    return entries

mutual

/-- The value of a node. -/
def Node.value (scope : Scope) : Node → Visit (Option Value)
  | .scalar tag text => do return (← Node.plainScalar? (.scalar tag text)).map .scalar
  | .sequence _ items => do
    count
    return some (.sequence (← itemValues scope items))
  | .mapping _ members => do
    count
    let texts := members.all fun (k, _) => k.isText scope.target
    if ← keysDiffer members then
      let plan : Plan := fun _ _ => .value
      let entries ← visitMembers members (visitOwn scope members texts plan []) (takeKeys scope members)
        (visitMerge scope members texts plan)
      return some (.mapping (entries.filterMap fun (key, value?) => value?.map fun value => (key, value)))
    else return none
  | .alias number _ anchor => follow number (scope.value anchor)

/-- The values of items. -/
def itemValues (scope : Scope) : List Node → Visit (List Value)
  | [] => return []
  | item :: items => do
    let value ← item.value scope
    return value.toList ++ (← itemValues scope items)

/-- Take the keys of a mapping. -/
def takeKeys (scope : Scope) : List (Node × Node) → Visit Unit
  | [] => return ()
  | (k, _) :: members => do
    match ← plainKey? true (← k.value scope) with
    | some key => modify fun v => { v with taken := v.taken.map (key :: ·) }
    | none => pure ()
    takeKeys scope members

/-- Visit the members that a mapping has itself and whose keys are not taken. With `texts` every key is a text. -/
def visitOwn (scope : Scope) : List (Node × Node) → Bool → Plan → Entries → Option (List Meaning) →
    Visit (Entries × Option (List Meaning))
  | [], _, _, entries, taken => return (entries, taken)
  | (k, v) :: members, texts, plan, entries, taken => do
    if k.isMerge then visitOwn scope members texts plan entries taken
    else
      let key? ←
        if texts then pure (textKey? (← k.scalar? scope.target)) else plainKey? taken.isSome (← k.value scope)
      match key? with
      | none => visitOwn scope members texts plan entries taken
      | some key =>
        if isTaken taken key then visitOwn scope members texts plan entries taken
        else
          let entries ← (plan entries key).visit entries key (v.value scope) (v.scalar? scope.target)
          visitOwn scope members texts plan entries (taken.map (key :: ·))

/-- Visit the members of the mappings that a mapping merges. -/
def visitMerge (scope : Scope) : List (Node × Node) → Bool → Plan → Entries → Visit Entries
  | [], _, _, entries => return entries
  | (k, v) :: members, texts, plan, entries =>
    if k.isMerge then v.visitMerged scope true texts plan entries else visitMerge scope members texts plan entries

/-- Visit the members of a mapping to be merged, or of a sequence of mappings where `several` allows it. -/
def Node.visitMerged (scope : Scope) : Node → Bool → Bool → Plan → Entries → Visit Entries
  | .mapping _ members, _, texts, plan, entries => do
    count
    if ← keysDiffer members then
      visitMembers members (visitOwn scope members texts plan entries) (takeKeys scope members)
        (visitMerge scope members texts plan)
    else return entries
  | .alias number _ anchor, _, texts, plan, entries => follow number (scope.merged anchor texts plan entries)
  | .sequence _ items, several, texts, plan, entries =>
    if several then visitMergedItems scope items texts plan entries else throw .malformed
  | .scalar _ _, _, _, _, _ => throw .malformed

/-- Visit the members of several mappings to be merged, of which the first with a key counts. -/
def visitMergedItems (scope : Scope) : List Node → Bool → Plan → Entries → Visit Entries
  | [], _, _, entries => return entries
  | item :: items, texts, plan, entries => do
    visitMergedItems scope items texts plan (← item.visitMerged scope false texts plan entries)

end

/-- What is beyond so many aliases, one after the other. No more than all aliases of a document can be followed before
one leads to itself. -/
def Document.scope (doc : Document) : Nat → Scope
  | 0 => ⟨doc.target, fun _ => throw .malformed, fun _ _ _ _ => throw .malformed⟩
  | n + 1 =>
    { target := doc.target
      value := fun anchor => (doc.target anchor).value (doc.scope n)
      merged := fun anchor => (doc.target anchor).visitMerged (doc.scope n) false }

/-- Visit the members of a mapping of a document whose keys are all texts, its own before those that it merges. -/
def Document.visitFields (doc : Document) (members : List (Node × Node)) (plan : Plan) : Visit Entries := do
  let scope := doc.scope doc.aliases
  if ← keysDiffer members then
    visitMembers members (visitOwn scope members true plan []) (takeKeys scope members)
      (visitMerge scope members true plan)
  else return []

/-- The value that a text has by a visit to its document, or `absent` without a document. -/
def readValue {α : Type} (visit : Document → Visit α) (absent : α) (s : String) : Except Fault α := do
  match Document.read s with
  | none => throw .malformed
  | some none => return absent
  | some (some doc) =>
    let (a, v) ← (visit doc).run Visits.start
    if v.misfit then throw .malformed else return a

end CliffordT.Yaml
