import CliffordT.Files.Basic
import CliffordT.Json.Error
import CliffordT.Matrix.Text
import CliffordT.Table.Basic

/-!
# What can go wrong with an artifact

Artifacts are the files that a run leaves: the record of the buckets, the table of all slots and the metrics. Errors
name the path as it was given.
-/

namespace CliffordT

/-- Why the text of an artifact was not understood. -/
inductive DecodeError where
  | json (e : Json.Error)
  /-- a text that is no YAML, or of other content -/
  | yaml
deriving DecidableEq, Repr

/-- The wording of such an error. -/
def DecodeError.message : DecodeError → String
  | .json e => e.message
  | .yaml => "malformed record"

/-- Why an artifact was not written or read. -/
inductive ArtifactError where
  /-- the extension names no format -/
  | unknownFormat (path : RawText)
  /-- a number that the format cannot express -/
  | encode (path : RawText) (value : String)
  /-- a text that is not of the format, or of other content -/
  | decode (path : RawText) (e : DecodeError)
  /-- a mapping whose keys cannot be told apart -/
  | incomparable (path : RawText)
  | read (path : RawText) (e : FileError)
  | create (path : RawText) (e : FileError)
  | write (path : RawText) (e : FileError)
  | writeMetrics (path : RawText)
  /-- an element that is not at the place of its bucket -/
  | bucketMismatch (path : RawText) (index : Nat) (bucket : Int)
  /-- an element whose word holds something else than gates -/
  | gates (path : RawText) (index : Nat) (e : UnknownGate)
  | table (e : TableError)
deriving DecidableEq, Repr

namespace ArtifactError

/-- The wording of an artifact error. -/
def message : ArtifactError → RawText
  | .unknownFormat path => "output: " ++ path.quoted ++ ": output: unknown file format"
  | .encode path value => "output: encode " ++ path.quoted ++ ": json: unsupported value: " ++ value
  | .decode path e => "output: decode " ++ path.quoted ++ ": " ++ e.message
  | .incomparable path => "output: decode " ++ path.quoted ++ ": incomparable keys"
  | .read path e => "output: read " ++ path.quoted ++ ": " ++ e.message
  | .create path e => "output: create " ++ path.quoted ++ ": " ++ e.message
  | .write path e => "output: write " ++ path.quoted ++ ": " ++ e.message
  | .writeMetrics path =>
    "output: write metrics " ++ path.quoted ++ ": rename " ++ path ++ ": file exists"
  | .bucketMismatch path index bucket =>
    "output: " ++ path.quoted ++ " element " ++ toString index ++ " has bucket " ++ toString bucket ++
      ": output: bucket does not match element index"
  | .gates path index e =>
    "output: " ++ path.quoted ++ " element " ++ toString index ++ ": " ++ e.message
  | .table e => e.message

end ArtifactError

end CliffordT
