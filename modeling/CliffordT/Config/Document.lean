import CliffordT.Config.Setting
import CliffordT.Json.Basic
import CliffordT.Json.Error
import CliffordT.Toml.Basic
import CliffordT.Yaml.Node.Value

/-!
# Settings in documents

What a document in JSON, YAML or TOML sets: the members of the mapping that it is. In JSON all numbers are doubles. In
TOML a table is a mapping, and an array of tables is a list of them, the last of which headings below it extend.
-/

namespace CliffordT.Setting

/-! ### JSON -/

mutual

/-- The setting of a JSON value. A number beyond the range of doubles is an error. -/
def ofJson : Json → Except Json.Error Setting
  | .null => .ok .null
  | .bool b => .ok (.bool b)
  | .number literal =>
    match Decimal.readFloat literal with
    | .ok x => .ok (.float x)
    | .error _ => .error (.misfit ("number " ++ literal) "value of type float64")
  | .string s => .ok (.text s)
  | .array items => (ofJsonItems items).map .list
  | .object members => (ofJsonMembers members).map .mapping

/-- The settings of the items of a JSON array. -/
def ofJsonItems : List Json → Except Json.Error (List Setting)
  | [] => .ok []
  | item :: items => do
    let value ← ofJson item
    return value :: (← ofJsonItems items)

/-- The settings of the members of a JSON object. -/
def ofJsonMembers : List (String × Json) → Except Json.Error Members
  | [] => .ok []
  | (name, item) :: members => do
    let value ← ofJson item
    return (RawText.ofString name, value) :: (← ofJsonMembers members)

end

/-! ### YAML -/

/-- The setting of a YAML scalar. -/
def ofYamlScalar : Yaml.Meaning → Setting
  | .null => .null
  | .bool b => .bool b
  | .int n => .int n
  | .float x => .float x
  | .time m => .time "time.Time" m.text
  | .text t => .text t

mutual

/-- The setting of a YAML value. -/
def ofYaml : Yaml.Value → Setting
  | .scalar s => ofYamlScalar s.meaning
  | .sequence items => .list (ofYamlItems items)
  | .mapping members => .mapping (ofYamlMembers members)

/-- The settings of the items of a YAML sequence. -/
def ofYamlItems : List Yaml.Value → List Setting
  | [] => []
  | item :: items => ofYaml item :: ofYamlItems items

/-- The settings of the members of a YAML mapping. A key that is no text goes by its text. -/
def ofYamlMembers : List (Yaml.Meaning × Yaml.Value) → Members
  | [] => []
  | (key, value) :: members => ((ofYamlScalar key).shown, ofYaml value) :: ofYamlMembers members

end

/-! ### TOML -/

/-- The members with what stands at the end of a path made from what it was. Mappings on the way are made if they are
missing. -/
def putAt : Toml.Name → (Option Setting → Setting) → Members → Members
  | [], _, members => members
  | [part], f, members => members.update part f
  | part :: rest, f, members =>
    members.update part fun old =>
      match old with
      | some (.mapping inner) => .mapping (putAt rest f inner)
      | some (.list items) =>
        match items.getLast? with
        | some (.mapping inner) => .list (items.dropLast ++ [.mapping (putAt rest f inner)])
        | _ => .list items
      | _ => .mapping (putAt rest f [])

/-- The name of the kind of a time in TOML. -/
def tomlTimeKind : Toml.Time → String
  | .date _ => "toml.LocalDate"
  | .clock _ => "toml.LocalTime"
  | .both _ _ => "toml.LocalDateTime"
  | .moment _ => "time.Time"

mutual

/-- The setting of a TOML value. -/
def ofToml : Toml.Value → Setting
  | .text s => .text s
  | .int n => .int n
  | .float x => .float x
  | .bool b => .bool b
  | .time t => .time (tomlTimeKind t) t.text
  | .array items => .list (ofTomlItems items)
  | .inline members => .mapping (ofTomlMembers [] members)

/-- The settings of the items of a TOML array. -/
def ofTomlItems : List Toml.Value → List Setting
  | [] => []
  | item :: items => ofToml item :: ofTomlItems items

/-- The members of an inline table, put to those that are known. -/
def ofTomlMembers : Members → List (Toml.Name × Toml.Value) → Members
  | known, [] => known
  | known, (name, value) :: members =>
    let setting := ofToml value
    ofTomlMembers (putAt name (fun _ => setting) known) members

end

/-- One more table in an array of tables. -/
def oneMore : Option Setting → Setting
  | some (.list tables) => .list (tables ++ [.mapping []])
  | _ => .list [.mapping []]

/-- What TOML statements set, the pairs in the table of the last heading. -/
def ofTomlStatements : Toml.Name → Members → List Toml.Statement → Members
  | _, known, [] => known
  | table, known, .pair name value :: statements =>
    ofTomlStatements table (putAt (table ++ name) (fun _ => ofToml value) known) statements
  | _, known, .table name :: statements =>
    ofTomlStatements name (putAt name (fun old => old.getD (.mapping [])) known) statements
  | _, known, .arrayTable name :: statements => ofTomlStatements name (putAt name oneMore known) statements

end CliffordT.Setting
