import CliffordT.Decimal.Format
import CliffordT.Double
import CliffordT.Json.Basic
import CliffordT.Json.Error
import CliffordT.Matrix.Text
import CliffordT.Text.Letters
import CliffordT.Yaml.Basic
import CliffordT.Yaml.Node.Value

/-!
# The diagnostic record

The record has one element per bucket: nothing for an empty one, else its entry with the angle also in degrees and the
matrix as a text. It is written as JSON or YAML and read back from both.

JSON is read by names in any case of letters, where a later member overrides an earlier one, unknown members and nulls
are passed over, and the bucket has to be written as an integer. YAML is read by exact names, none of them twice; a
bucket may be written as any number, which is cut to an integer, and a text as any scalar.
-/

namespace CliffordT

open CliffordT.Decimal

/-- One found bucket in the record. -/
structure Diagnostic where
  bucket : Int
  phase : Float
  degrees : Float
  gates : Word
  matrix : String
  error : Float

namespace Diagnostic

/-- An element without any member. -/
def blank : Diagnostic := ⟨0, 0, 0, [], "", 0⟩

/-- The element of a bucket entry. -/
def ofEntry (e : DoubleEntry) : Diagnostic :=
  ⟨e.bucket, e.phase, e.phase * 180 / Numeric.pi, e.gates, e.matrix.short, e.error⟩

/-! ### Writing -/

/-- A finite number in JSON. -/
def jsonNumber (x : Float) : Except String Json :=
  if x.isFinite then .ok (.number (Style.json.write x)) else .error (Style.general.write x)

/-- The element in JSON. A number that is not finite is an error, given by its text. -/
def toJson (d : Diagnostic) : Except String Json := do
  let phase ← jsonNumber d.phase
  let degrees ← jsonNumber d.degrees
  let error ← jsonNumber d.error
  return .object
    [("bucket", .number (toString d.bucket)), ("phase", phase), ("degrees", degrees), ("gates", .string d.gates.text),
     ("matrix", .string d.matrix), ("error", error)]

/-- The element in YAML. -/
def toYaml (d : Diagnostic) : Yaml :=
  let member (name : String) (value : Yaml) : Yaml × Yaml := (.scalar true name, value)
  let number (x : Float) : Yaml := .scalar false (Style.yaml.write x)
  .mapping
    [member "bucket" (.scalar false (toString d.bucket)), member "phase" (number d.phase),
     member "degrees" (number d.degrees), member "gates" (.scalar true d.gates.text),
     member "matrix" (.scalar true d.matrix), member "error" (number d.error)]

/-! ### Reading JSON -/

/-- The names of the members. -/
def names : List String := ["bucket", "phase", "degrees", "gates", "matrix", "error"]

/-- The member that a name stands for, in any case of letters. -/
def member? (name : String) : Option String :=
  if names.contains name then some name else names.find? (Text.sameFolded name)

/-- The error for a member that is not of its kind. -/
def memberError (name kind found : String) : Json.Error :=
  .misfit found ("struct field DiagnosticEntry." ++ name ++ " of type " ++ kind)

/-- An integer written as one. -/
def jsonInt (name : String) : Json → Except Json.Error Int
  | .number literal =>
    match readIntBase 10 literal with
    | .ok n => .ok n
    | .error _ => .error (memberError name "int" ("number " ++ literal))
  | value => .error (memberError name "int" value.kind)

/-- A number within the range of doubles. -/
def jsonFloat (name : String) : Json → Except Json.Error Float
  | .number literal =>
    match readFloat literal with
    | .ok x => .ok x
    | .error _ => .error (memberError name "float64" ("number " ++ literal))
  | value => .error (memberError name "float64" value.kind)

/-- A text. -/
def jsonText (name : String) : Json → Except Json.Error String
  | .string s => .ok s
  | value => .error (memberError name "string" value.kind)

/-- The element with one member of an object taken over. -/
def withMember (d : Diagnostic) (name : String) (value : Json) : Except Json.Error Diagnostic :=
  match value with
  | .null => .ok d
  | value =>
    match member? name with
    | some "bucket" => (jsonInt "bucket" value).map fun n => { d with bucket := n }
    | some "phase" => (jsonFloat "phase" value).map fun x => { d with phase := x }
    | some "degrees" => (jsonFloat "degrees" value).map fun x => { d with degrees := x }
    | some "gates" => (jsonText "gates" value).map fun s => { d with gates := .ofText s }
    | some "matrix" => (jsonText "matrix" value).map fun s => { d with matrix := s }
    | some "error" => (jsonFloat "error" value).map fun x => { d with error := x }
    | _ => .ok d

/-- An element of a record in JSON. -/
def ofJson : Json → Except Json.Error (Option Diagnostic)
  | .null => .ok none
  | .object members =>
    (members.foldlM (fun (d : Diagnostic) (name, value) => d.withMember name value) blank).map some
  | value => .error (.misfit value.kind "value of type output.DiagnosticEntry")

/-! ### Reading YAML -/

/-- A number as an integer. A fraction is cut off; a number below the 64-bit range gives the least integer. -/
def yamlInt? (meaning : Yaml.Meaning) : Option Int :=
  match meaning with
  | .int n => if n < 0x8000000000000000 then some n else none
  | .float x => if x ≤ 9223372036854775808.0 then some (Numeric.truncate64 x) else none
  | _ => none

/-- A number as a double. -/
def yamlFloat? (meaning : Yaml.Meaning) : Option Float :=
  match meaning with
  | .int n => some (Float.ofInt n)
  | .float x => some x
  | _ => none

/-- The element with one scalar of a mapping taken over. A null is passed over, and a text is taken as it is written. -/
def withScalar? (d : Diagnostic) (name : String) (s : Yaml.Scalar) : Option Diagnostic :=
  match s.text?, name with
  | none, _ => some d
  | _, "bucket" => (yamlInt? s.meaning).map fun n => { d with bucket := n }
  | _, "phase" => (yamlFloat? s.meaning).map fun x => { d with phase := x }
  | _, "degrees" => (yamlFloat? s.meaning).map fun x => { d with degrees := x }
  | some t, "gates" => some { d with gates := t.bytes }
  | some t, "matrix" => some { d with matrix := t.text }
  | _, _ => (yamlFloat? s.meaning).map fun x => { d with error := x }

/-- Members are visited as scalars, unknown ones not at all. A member that is set twice does not fit. -/
def plan : Yaml.Plan := fun entries key =>
  if !names.any fun name => key.same (.text name) then .skip
  else if entries.any fun (k, _) => key.same k then .refuse
  else .scalar

/-- The element with one member of a mapping taken over. What is not of the member's kind does not fit. -/
def withEntry (d : Diagnostic) : Yaml.Meaning × Option Yaml.Value → Yaml.Visit Diagnostic
  | (.text name, some (.scalar s)) =>
    match d.withScalar? name.text s with
    | some d => return d
    | none => do
      Yaml.noteMisfit
      return d
  | _ => return d

/-- A node other than an alias as an element of a record. -/
def ofPlainYaml (doc : Yaml.Document) : Yaml.Node → Yaml.Visit (Option Diagnostic)
  | .mapping tag members => do
    Yaml.count
    if tag = .null then
      Yaml.noteMisfit
      return none
    else return some (← (← doc.visitFields members plan).foldlM withEntry blank)
  | node => do
    match ← node.plainScalar? with
    | some ⟨_, .null⟩ => return none
    | _ =>
      Yaml.noteMisfit
      return none

/-- An element of a record in YAML. -/
def ofYaml (doc : Yaml.Document) : Yaml.Node → Yaml.Visit (Option Diagnostic)
  | .alias number _ anchor => Yaml.follow number (ofPlainYaml doc (doc.target anchor))
  | node => ofPlainYaml doc node

end Diagnostic

/-- A record: one element per bucket. -/
abbrev Diagnostics := List (Option Diagnostic)

namespace Diagnostics

/-- The record of a table. -/
def ofTable (t : DoubleTable) : Diagnostics := t.buckets.toList.map fun e => e.map Diagnostic.ofEntry

/-- The record in JSON. -/
def toJson (record : Diagnostics) : Except String Json := do
  let items ← record.mapM fun d? => match d? with | none => Except.ok Json.null | some d => d.toJson
  return .array items

/-- The record in YAML. -/
def toYaml (record : Diagnostics) : Yaml :=
  .sequence (record.map fun d? => match d? with | none => .scalar false "null" | some d => d.toYaml)

/-- A record in JSON; null is an empty one. -/
def ofJson : Json → Except Json.Error Diagnostics
  | .null => .ok []
  | .array items => items.mapM Diagnostic.ofJson
  | value => .error (.misfit value.kind "value of type []*output.DiagnosticEntry")

/-- A record in YAML; null is an empty one. -/
def ofYaml (doc : Yaml.Document) : Yaml.Visit Diagnostics :=
  match doc.root with
  | .sequence _ items => do
    Yaml.count
    items.mapM (Diagnostic.ofYaml doc)
  | root => do
    match ← root.plainScalar? with
    | some ⟨_, .null⟩ => return []
    | _ =>
      Yaml.noteMisfit
      return []

end Diagnostics

end CliffordT
