import CliffordT.Command.Flag
import CliffordT.Config.Dotenv
import CliffordT.Config.File
import CliffordT.Config.Key

/-!
# Loading the parameters

A setting is taken from the first of these that sets it: its flag, its variable in the environment if it is not empty,
the file of settings, and at last the default. The file `.env` adds variables that the environment does not have. The
parameters are set by the settings of their names and then checked.
-/

namespace CliffordT.Config

/-- Why the parameters could not be loaded. -/
inductive LoadError where
  /-- a file of variables that cannot be read, or is no such file -/
  | variablesFile (path : RawText) (e : FileError)
  | variablesText (path : RawText) (e : Dotenv.Error)
  | settings (path : RawText) (e : SettingsError)
  /-- values that do not convert -/
  | conversion (reasons : List String)
  | invalid (e : ConfigError)

/-- The wording of a load error. -/
def LoadError.message : LoadError → RawText
  | .variablesFile path e => "config: load " ++ path.quoted ++ ": " ++ e.message
  | .variablesText path e => "config: load " ++ path.quoted ++ ": " ++ e.message
  | .settings path e => "config: read " ++ path.quoted ++ ": " ++ e.message
  | .conversion reasons =>
    let points := (reasons.map fun r => "* " ++ r).mergeSort fun a b => a ≤ b
    "config: unmarshal: " ++ toString reasons.length ++ " error(s) decoding:\n\n" ++ "\n".intercalate points
  | .invalid e => e.message

/-! ### Names

A setting can be set under three names. Flags have names of their own, with dashes; each sets the setting whose name has
underscores in their place. The name of a variable is that of its setting in capitals, behind the name of the program.
-/

/-- The flags that set settings. -/
def flags : List Command.Flag :=
  [⟨"points", .int, none, "slots on the full phase circle (multiple of 8)", toString default.points⟩,
   ⟨"epsilon", .float, none, "diagonality tolerance", Decimal.Style.general.write default.epsilon⟩,
   ⟨"depth", .int, none, "maximum number of blocks per buffered sequence", toString default.depth⟩,
   ⟨"precision", .text, none, "buffer precision: single or double", default.precision.text⟩,
   ⟨"diagnostics", .text, none, "diagnostic record path (.json, .yaml)", default.diagnostics.text⟩,
   ⟨"table", .text, none, "expanded table path (.json, .yaml)", default.table.text⟩,
   ⟨"metrics-file", .text, none, "write Prometheus metrics to this textfile", default.metricsFile.text⟩,
   ⟨"timeout", .duration, none, "abort the search after this long (0 = never)", default.timeout.text⟩,
   ⟨"progress-every", .int, none, "log progress every n outer steps", toString default.progressEvery⟩,
   ⟨"skip-mitm", .switch, none, "skip the meet-in-the-middle stage", toString default.skipMeet⟩,
   ⟨"strict", .switch, none, "exit non-zero on incomplete coverage or mismatches", toString default.strict⟩,
   ⟨"log-level", .text, none, "log level", default.logLevel.text⟩,
   ⟨"log-file", .text, none, "also write logs to this rotated file", default.logFile.text⟩]

/-- The name of the setting that a flag sets. -/
def settingName (flag : String) : String := String.ofList (flag.toList.map fun c => if c = '-' then '_' else c)

/-- The name of the variable of a setting. -/
def variableName (name : String) : String :=
  let capitals := ("PHASEGATE_" ++ name).toList.map Char.toUpper
  String.ofList (capitals.map fun c => if c = '-' ∨ c = '.' then '_' else c)

/-- The settings when nothing else sets them. -/
def defaults : Settings :=
  [("points", .int default.points),
   ("epsilon", .float default.epsilon),
   ("depth", .int default.depth),
   ("precision", .text default.precision),
   ("diagnostics", .text default.diagnostics),
   ("table", .text default.table),
   ("metrics_file", .text default.metricsFile),
   ("timeout", .int default.timeout.nanoseconds),
   ("progress_every", .int default.progressEvery),
   ("skip_mitm", .bool default.skipMeet),
   ("strict", .bool default.strict),
   ("log_level", .text default.logLevel),
   ("log_file", .text default.logFile)]

/-! ### Sources -/

/-- The path of the file of variables. -/
def dotenvPath : RawText := ".env"

/-- Whether a variable can be in an environment: there is no zero byte in it. -/
def isVariable (entry : String × String) : Bool :=
  let isZero (c : Char) : Bool := c.toNat = 0
  !entry.1.any isZero && !entry.2.any isZero

/-- Of each name only the first entry. -/
def firstOfNames (entries : List (String × String)) : List (String × String) :=
  entries.foldl (fun found entry => if (found.lookup entry.1).isSome then found else found ++ [entry]) []

/-- The environment with the variables of the file `.env` that it does not have. A missing file adds nothing, nor does
a variable whose last value in the file has a zero byte. -/
def environment (fs : Files) (env : List (String × String)) : Except LoadError (List (String × String)) :=
  match fs.read dotenvPath with
  | .error e => if e.fault = .notFound then .ok (env.filter isVariable) else .error (.variablesFile dotenvPath e)
  | .ok text =>
    match Dotenv.read text with
    | .error e => .error (.variablesText dotenvPath e)
    | .ok added => .ok ((env ++ firstOfNames added).filter isVariable)

/-- The value of a setting from the first source that sets it. -/
def source? (arguments : Command.Arguments) (env : List (String × String)) (settings : Settings) (name : String) :
    Option Setting :=
  let byFlag := (flags.find? fun f => settingName f.name = name).bind fun f => arguments.value? f.name
  let byVariable := ((env.lookup (variableName name)).filter (· ≠ "")).map fun (v : String) => Setting.text v
  byFlag.or (byVariable.or ((settings.lookup name).or (defaults.lookup name)))

/-- The parameters before any setting sets them. -/
def blank : Config where
  points := 0
  epsilon := 0
  depth := 0
  precision := ""
  diagnostics := ""
  table := ""
  metricsFile := ""
  timeout := ⟨0⟩
  progressEvery := 0
  skipMeet := false
  strict := false
  logLevel := ""
  logFile := ""

/-- Set parameters one by one, and collect what does not convert. -/
def assemble (value? : Key → Option Setting) : List Key → Config × List String → Config × List String
  | [], done => done
  | k :: keys, (c, reasons) =>
    assemble value? keys <|
      match value? k with
      | none => (c, reasons)
      | some v =>
        match c.set k v with
        | .ok c => (c, reasons)
        | .error reason => (c, reasons ++ [reason])

/-- The settings of the file that is named, if one is. -/
def settingsOf (fs : Files) (path : RawText) : Except LoadError Settings :=
  if path.isEmpty then .ok []
  else
    match readSettings fs path with
    | .ok settings => .ok settings
    | .error e => .error (.settings path e)

/-- Load and check the parameters. -/
def load (fs : Files) (env : List (String × String)) (arguments : Command.Arguments) (path : RawText) :
    Except LoadError Config := do
  let env ← environment fs env
  let settings ← settingsOf fs path
  let (c, reasons) := assemble (fun k => source? arguments env settings k.name) Key.all (blank, [])
  if !reasons.isEmpty then .error (.conversion reasons)
  else
    match c.validate with
    | .ok () => .ok c
    | .error e => .error (.invalid e)

end CliffordT.Config
