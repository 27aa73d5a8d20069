import CliffordT.Artifact.Diagnostics
import CliffordT.Artifact.Format
import CliffordT.Json.Reader
import CliffordT.Json.Writer
import CliffordT.Yaml.Writer

/-!
# Artifacts in files

Writing decides the format first, then makes the text, then the directories and at last the file, so that a record
that cannot be expressed leaves no trace. A file that cannot be written leaves the directories that were made for it.
Loading a table replays the word of every element.
-/

namespace CliffordT.Artifact

/-- A write that failed: why, and the files as it leaves them. -/
structure Setback where
  cause : ArtifactError
  files : Files
deriving DecidableEq, Repr

/-- A write of which only the files that succeed count. -/
instance instCoeExcept : Coe (Except Setback Files) (Except ArtifactError Files) := ⟨fun r => r.mapError Setback.cause⟩

/-- Put a text into a file, with the directories above it. -/
def place (fs : Files) (path : RawText) (text : String) : Except Setback Files :=
  let dir := Path.directory path
  match fs.makeDirectories dir with
  | .error e => .error ⟨.create dir e.toFileError, e.files⟩
  | .ok made =>
    match made.write path text with
    | .error e => .error ⟨.write path e, made⟩
    | .ok fs => .ok fs

/-- Write a record. -/
def writeRecord (fs : Files) (path : RawText) (record : Diagnostics) : Except Setback Files :=
  match Format.ofPath path with
  | .error e => .error ⟨e, fs⟩
  | .ok .json =>
    match record.toJson with
    | .error value => .error ⟨.encode path value, fs⟩
    | .ok value => place fs path value.render
  | .ok .yaml => place fs path record.toYaml.render

/-- Write the record of a table. -/
def writeDiagnostics (fs : Files) (path : RawText) (t : DoubleTable) : Except Setback Files :=
  writeRecord fs path (.ofTable t)

/-- Write the words of all slots. -/
def writeTable (fs : Files) (path : RawText) (full : List Word) : Except Setback Files :=
  match Format.ofPath path with
  | .error e => .error ⟨e, fs⟩
  | .ok .json => place fs path (Json.array (full.map fun w => .string w.text)).render
  | .ok .yaml => place fs path (Yaml.sequence (full.map fun w => .scalar true w.text)).render

/-- How many digits are added to the name of a file that is written beside the one it is to replace. -/
def besideDigits : Nat := 10

/-- The size of the name under which the metrics are written before they get theirs: digits stand in place of its last
star, or else behind it. -/
def besideBytes (path : RawText) : Nat :=
  let name := (Path.names path).getLastD ""
  name.size + besideDigits - (if name.bytes.contains 42 then 1 else 0)

/-- Write metrics. They are written beside their file, which is then replaced as a whole; a directory in its place
prevents that, and so does a name to which no digits can be added. -/
def writeMetrics (fs : Files) (path : RawText) (text : String) : Except Setback Files :=
  let dir := Path.directory path
  match fs.makeDirectories dir with
  | .error e => .error ⟨.create dir e.toFileError, e.files⟩
  | .ok made =>
    if maxNameBytes < besideBytes path then .error ⟨.writeMetrics path, made⟩
    else
      match made.write path text with
      | .error _ => .error ⟨.writeMetrics path, made⟩
      | .ok fs => .ok fs

/-- Read a record. -/
def readDiagnostics (fs : Files) (path : RawText) : Except ArtifactError Diagnostics := do
  let format ← Format.ofPath path
  match fs.read path with
  | .error e => .error (.read path e)
  | .ok text =>
    match format with
    | .json =>
      match (Json.read text).bind Diagnostics.ofJson with
      | .ok record => .ok record
      | .error e => .error (.decode path (.json e))
    | .yaml =>
      match Yaml.readValue Diagnostics.ofYaml [] text with
      | .ok record => .ok record
      | .error .malformed => .error (.decode path .yaml)
      | .error .incomparable => .error (.incomparable path)

/-- The entry of an element, which has to stand at the place of its bucket. -/
def entryOf (path : RawText) (index : Nat) (d : Diagnostic) : Except ArtifactError DoubleEntry :=
  if d.bucket ≠ index then .error (.bucketMismatch path index d.bucket)
  else
    match Word.replay d.gates with
    | .error e => .error (.gates path index e)
    | .ok m => .ok ⟨d.bucket, d.phase, d.gates, m, d.error⟩

/-- The entries of a record from an index on. -/
def entriesFrom (path : RawText) : Nat → Diagnostics → Except ArtifactError (List DoubleEntry)
  | _, [] => .ok []
  | index, none :: rest => entriesFrom path (index + 1) rest
  | index, some d :: rest => do
    let e ← entryOf path index d
    return e :: (← entriesFrom path (index + 1) rest)

/-- The table of a record: eight slots for every element. -/
def tableOf (path : RawText) (record : Diagnostics) : Except ArtifactError DoubleTable := do
  let es ← entriesFrom path 0 record
  match Table.ofEntries (8 * record.length) es with
  | .ok t => .ok t
  | .error e => .error (.table e)

/-- Read the table of a record. -/
def loadTable (fs : Files) (path : RawText) : Except ArtifactError DoubleTable := do
  tableOf path (← readDiagnostics fs path)

end CliffordT.Artifact
