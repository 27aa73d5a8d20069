import CliffordT.Yaml.Node.Basic
import CliffordT.Yaml.Token.Queue

/-!
# Reading YAML nodes

Nodes are built from tokens. Only the first document of a text is read, and of what follows it only the next token.
-/

namespace CliffordT.Yaml

/-- What building nodes works on. -/
structure Building where
  tokens : Tokens
  /-- what the handles of tags stand for -/
  handles : List (String × String)
  /-- the names of anchors with their numbers, the latest first -/
  anchors : List (String × Nat)
  /-- the nodes with anchors by their numbers, as far as they are complete -/
  anchored : Array Node
  /-- how many aliases there were -/
  aliases : Nat

/-- A step of building nodes, which may fail. -/
abbrev Builder := StateT Building Option

namespace Builder

/-- The next token. -/
def peek : Builder Token := do
  let s ← get
  match s.tokens.peek with
  | none => failure
  | some (token, tokens) =>
    set { s with tokens := tokens }
    return token

/-- Pass the next token. -/
def skip : Builder Unit := modify fun s => { s with tokens := s.tokens.drop }

/-! ### Properties -/

/-- The properties of a node. -/
structure Properties where
  anchor : Option String
  tag : Option String

/-- The text of a tag. -/
def tagText (handle name : String) : Builder String := do
  if handle = "" then return name
  match (← get).handles.lookup handle with
  | some text => return text ++ name
  | none => failure

/-- The anchor and the tag of a node, in any order. -/
def properties : Builder Properties := do
  match ← peek with
  | .anchor anchor =>
    skip
    match ← peek with
    | .tag handle name =>
      skip
      return ⟨some anchor, some (← tagText handle name)⟩
    | _ => return ⟨some anchor, none⟩
  | .tag handle name =>
    skip
    match ← peek with
    | .anchor anchor =>
      skip
      return ⟨some anchor, some (← tagText handle name)⟩
    | _ => return ⟨none, some (← tagText handle name)⟩
  | _ => return ⟨none, none⟩

/-- The kind that the properties ask for. -/
def Properties.kind (p : Properties) : Tag := Tag.ofText (p.tag.getD "")

/-- A node with properties. Its anchor gets a number before the node is built, so that aliases inside know it. -/
def withProperties (p : Properties) (build : Builder Node) : Builder Node := do
  match p.anchor with
  | none => build
  | some name =>
    let number := (← get).anchored.size
    modify fun s => { s with anchors := (name, number) :: s.anchors, anchored := s.anchored.push .missing }
    let node ← build
    modify fun s => { s with anchored := s.anchored.setIfInBounds number node }
    return node

/-- An alias of the latest anchor with a name. -/
def aliasOf (name : String) : Builder Node := do
  let s ← get
  match s.anchors.lookup name with
  | none => failure
  | some anchor =>
    set { s with aliases := s.aliases + 1 }
    return .alias s.aliases name anchor

/-! ### Nodes -/

mutual

/-- A node. A block may start only where `block` allows it, and a sequence in the column of its key only where
`inKey` does. -/
def node : Nat → Bool → Bool → Builder Node
  | 0, _, _ => failure
  | fuel + 1, block, inKey => do
    if let .alias name ← peek then
      skip
      return ← aliasOf name
    let p ← properties
    let missing : Builder Node :=
      if p.anchor.isNone && p.tag.isNone then failure
      else withProperties p (return .ofScalar p.kind true "")
    match ← peek with
    | .scalar plain text =>
      skip
      withProperties p (return .ofScalar p.kind plain text)
    | .flowSequence =>
      skip
      withProperties p (return .sequence p.kind (← flowItems fuel true []))
    | .flowMapping =>
      skip
      withProperties p (return .mapping p.kind (← flowMembers fuel true []))
    | .blockSequence =>
      if block then
        skip
        withProperties p (return .sequence p.kind (← blockItems fuel []))
      else missing
    | .blockMapping =>
      if block then
        skip
        withProperties p (return .mapping p.kind (← blockMembers fuel []))
      else missing
    | .item => if inKey then withProperties p (return .sequence p.kind (← keyItems fuel [])) else missing
    | _ => missing

/-- The items of a block sequence behind those that were read. -/
def blockItems : Nat → List Node → Builder (List Node)
  | 0, _ => failure
  | fuel + 1, done => do
    match ← peek with
    | .item =>
      skip
      match ← peek with
      | .item => blockItems fuel (.missing :: done)
      | .blockEnd => blockItems fuel (.missing :: done)
      | _ =>
        let item ← node fuel true false
        blockItems fuel (item :: done)
    | .blockEnd =>
      skip
      return done.reverse
    | _ => failure

/-- The items of a block sequence in the column of its key, behind those that were read. -/
def keyItems : Nat → List Node → Builder (List Node)
  | 0, _ => failure
  | fuel + 1, done => do
    match ← peek with
    | .item =>
      skip
      match ← peek with
      | .item => keyItems fuel (.missing :: done)
      | .key => keyItems fuel (.missing :: done)
      | .value => keyItems fuel (.missing :: done)
      | .blockEnd => keyItems fuel (.missing :: done)
      | _ =>
        let item ← node fuel true false
        keyItems fuel (item :: done)
    | _ => return done.reverse

/-- A key or a value in a block mapping, which may be missing. -/
def blockPart : Nat → Builder Node
  | 0 => failure
  | fuel + 1 => do
    match ← peek with
    | .key => return .missing
    | .value => return .missing
    | .blockEnd => return .missing
    | _ => node fuel true true

/-- The members of a block mapping behind those that were read. -/
def blockMembers : Nat → List (Node × Node) → Builder (List (Node × Node))
  | 0, _ => failure
  | fuel + 1, done => do
    match ← peek with
    | .key =>
      skip
      let key ← blockPart fuel
      match ← peek with
      | .value =>
        skip
        let value ← blockPart fuel
        blockMembers fuel ((key, value) :: done)
      | _ => blockMembers fuel ((key, .missing) :: done)
    | .blockEnd =>
      skip
      return done.reverse
    | _ => failure

/-- The items of a flow sequence, the first one or those behind the ones that were read. -/
def flowItems : Nat → Bool → List Node → Builder (List Node)
  | 0, _, _ => failure
  | fuel + 1, first, done => do
    match ← peek with
    | .flowSequenceEnd =>
      skip
      return done.reverse
    | token =>
      if !first then
        if token = .comma then skip else failure
      match ← peek with
      | .flowSequenceEnd =>
        skip
        return done.reverse
      | .key =>
        skip
        let pair ← flowPair fuel
        flowItems fuel false (.mapping .untagged [pair] :: done)
      | _ =>
        let item ← node fuel false false
        flowItems fuel false (item :: done)

/-- A key and its value as an item of a flow sequence. The token behind a missing key is passed. -/
def flowPair : Nat → Builder (Node × Node)
  | 0 => failure
  | fuel + 1 => do
    let token ← peek
    let key ←
      if token = .value ∨ token = .comma ∨ token = .flowSequenceEnd then do
        skip
        pure .missing
      else node fuel false false
    match ← peek with
    | .value =>
      skip
      match ← peek with
      | .comma => return (key, .missing)
      | .flowSequenceEnd => return (key, .missing)
      | _ => return (key, ← node fuel false false)
    | _ => return (key, .missing)

/-- The members of a flow mapping, the first one or those behind the ones that were read. -/
def flowMembers : Nat → Bool → List (Node × Node) → Builder (List (Node × Node))
  | 0, _, _ => failure
  | fuel + 1, first, done => do
    match ← peek with
    | .flowMappingEnd =>
      skip
      return done.reverse
    | token =>
      if !first then
        if token = .comma then skip else failure
      match ← peek with
      | .flowMappingEnd =>
        skip
        return done.reverse
      | .key =>
        skip
        let key ← flowPart fuel true
        match ← peek with
        | .value =>
          skip
          let value ← flowPart fuel false
          flowMembers fuel false ((key, value) :: done)
        | _ => flowMembers fuel false ((key, .missing) :: done)
      | _ =>
        let key ← node fuel false false
        flowMembers fuel false ((key, .missing) :: done)

/-- A key or a value in a flow mapping, which may be missing. -/
def flowPart : Nat → Bool → Builder Node
  | 0, _ => failure
  | fuel + 1, isKey => do
    match ← peek with
    | .value => if isKey then return .missing else node fuel false false
    | .comma => return .missing
    | .flowMappingEnd => return .missing
    | _ => node fuel false false

end

/-! ### Documents -/

/-- Pass the directives in front of a document. There is one version at most, and each handle stands for one text. -/
def directives : Nat → Bool → Builder Unit
  | 0, _ => failure
  | fuel + 1, versioned => do
    match ← peek with
    | .version major minor =>
      if versioned ∨ major ≠ 1 ∨ minor ≠ 1 then failure
      skip
      directives fuel true
    | .handle name text =>
      if ((← get).handles.lookup name).isSome then failure
      modify fun s => { s with handles := (name, text) :: s.handles }
      skip
      directives fuel versioned
    | _ => return ()

/-- What handles stand for unless a directive says otherwise. -/
def defaultHandles : List (String × String) := [("!", "!"), ("!!", Tag.home)]

/-- The first document of a text, if there is one. -/
def document (fuel : Nat) : Builder (Option Node) := do
  let first ← peek
  if first = .streamEnd then return none
  directives fuel false
  modify fun s => { s with handles := s.handles ++ defaultHandles }
  let root ←
    match first, ← peek with
    | .version _ _, .documentStart => content
    | .handle _ _, .documentStart => content
    | .documentStart, _ => content
    | .version _ _, _ => failure
    | .handle _ _, _ => failure
    | _, _ => node fuel true false
  discard peek
  return some root
where
  /-- The root behind the mark of a document, which may be missing. -/
  content : Builder Node := do
    skip
    match ← peek with
    | .version _ _ => return .missing
    | .handle _ _ => return .missing
    | .documentStart => return .missing
    | .documentEnd => return .missing
    | .streamEnd => return .missing
    | _ => node fuel true false

end Builder

/-- Read the first document of a text: nothing if the text is malformed, and no document if there is none. -/
def Document.read (s : String) : Option (Option Document) := do
  let cs := s.toList
  let cs := if cs.head? = some (Char.ofNat 0xfeff) then cs.drop 1 else cs
  if !cs.all isAllowed then none
  else
    let tokens := Tokens.start cs
    let (root, built) ← (Builder.document tokens.bound).run ⟨tokens, [], [], #[], 0⟩
    return root.map fun root => ⟨root, built.anchored, built.aliases⟩

end CliffordT.Yaml
