import CliffordT.Config.Document
import CliffordT.Files.Basic
import CliffordT.Json.Reader
import CliffordT.Toml.Reader

/-!
# Settings in files

A file of settings is a mapping of names to values in YAML, JSON or TOML, which its extension decides. Names are taken
in lower case; of two that are then the same, one that had a capital letter counts. A null counts as not set.
-/

namespace CliffordT.Config

/-- Why a file of settings was not read. -/
inductive SettingsError where
  | unsupported (extension : String)
  | file (e : FileError)
  | json (e : Json.Error)
  /-- a document that is no YAML or TOML, or no mapping -/
  | malformed
  /-- a mapping whose keys cannot be told apart -/
  | incomparable
deriving DecidableEq, Repr

/-- The wording of such an error. -/
def SettingsError.message : SettingsError → RawText
  | .unsupported ext => "Unsupported Config Type " ++ Text.quoted ext
  | .file e => e.message
  | .json e => "While parsing config: " ++ e.message
  | .malformed => "While parsing config: malformed document"
  | .incomparable => "While parsing config: incomparable keys"

/-- Settings by their names. -/
abbrev Settings := List (String × Setting)

/-- The members of a JSON object. -/
def readJson (s : String) : Except SettingsError Members :=
  match Json.read s with
  | .error e => .error (.json e)
  | .ok .null => .ok []
  | .ok (.object members) =>
    match Setting.ofJsonMembers members with
    | .ok members => .ok members
    | .error e => .error (.json e)
  | .ok value => .error (.json (.misfit value.kind "value of type map[string]interface \x7b\x7d"))

/-- The members of a YAML mapping; a null has none. -/
def ofYamlRoot (doc : Yaml.Document) : Yaml.Visit Members :=
  match doc.root with
  | .mapping _ members => do
    Yaml.count
    return (← doc.visitFields members fun _ _ => .value).filterMap fun
      | (.text name, some value) => some (name, Setting.ofYaml value)
      | _ => none
  | root => do
    match ← root.plainScalar? with
    | some ⟨_, .null⟩ => return []
    | _ =>
      Yaml.noteMisfit
      return []

/-- The members of a YAML document. -/
def readYaml (s : String) : Except SettingsError Members :=
  match Yaml.readValue ofYamlRoot [] s with
  | .ok members => .ok members
  | .error .malformed => .error .malformed
  | .error .incomparable => .error .incomparable

/-- The members of a TOML document. -/
def readToml (s : String) : Except SettingsError Members :=
  match Toml.read s with
  | none => .error .malformed
  | some statements => .ok (Setting.ofTomlStatements [] [] statements)

/-- Settings by their names in lower case. A name that had a capital letter overrides one that had none, and a later one
an earlier one. A null is not set. -/
def lowered (members : Members) : Settings :=
  let (small, capital) := members.partition fun (name, _) => Text.lower name.text = name.text
  let merged : Settings := (small ++ capital).foldl (fun kept (name, value) =>
    (Text.lower name.text, value.lowered) :: kept.filter fun (n, _) => n ≠ Text.lower name.text) []
  merged.filter fun (_, value) => match value with | .null => false | _ => true

/-- How files with an extension are read, if they are. -/
def reader? (ext : String) : Option (String → Except SettingsError Members) :=
  match ext with
  | "yaml" => some readYaml
  | "yml" => some readYaml
  | "json" => some readJson
  | "toml" => some readToml
  | _ => none

/-- The settings of a file, their names in lower case. -/
def readSettings (fs : Files) (path : RawText) : Except SettingsError Settings :=
  let ext := String.ofList ((Path.extension path).text.toList.drop 1)
  match reader? ext with
  | none => .error (.unsupported ext)
  | some read =>
    match fs.read path with
    | .error e => .error (.file e)
    | .ok text => (read text).map lowered

end CliffordT.Config
