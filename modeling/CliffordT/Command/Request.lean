import CliffordT.Config.Load

/-!
# What a command line asks for

The program synthesizes a table, unless the first argument that is no flag names another command: `expand`, `version`,
`help`, `completion`, which has commands of its own, or one that scripts call to complete arguments. To find it, flags
are skipped with their values, and a flag that is not known is taken to have one. The arguments without the name of the
command are then read by the flags of that command.
-/

namespace CliffordT.Command

/-- The name of the program. -/
def programName : String := "phasegate"

/-- What the program can be asked to do. -/
inductive Verb where
  | synthesize
  | expand
  | version
  | help
  | completion
  /-- write a script with which a shell completes arguments -/
  | script (shell : String)
  /-- complete arguments for such a script -/
  | complete
deriving DecidableEq, Repr

/-- The shells that can complete arguments. -/
def shells : List String := ["bash", "zsh", "fish", "powershell"]

/-- What scripts of shells call to complete arguments, with and without descriptions. -/
def completers : List String := ["__complete", "__completeNoDesc"]

/-- The commands of a command by their names. -/
def Verb.named : Verb → List (String × Verb)
  | .synthesize =>
    [("expand", .expand), ("version", .version), ("help", .help), ("completion", .completion)] ++
      completers.map fun name => (name, .complete)
  | .completion => shells.map fun shell => (shell, .script shell)
  | _ => []

/-- The name of a command. -/
def Verb.name : Verb → String
  | .synthesize => programName
  | .expand => "expand"
  | .version => "version"
  | .help => "help"
  | .completion => "completion"
  | .script shell => shell
  | .complete => "__complete"

/-- A command as it is called. -/
def Verb.call : Verb → String
  | .synthesize => programName
  | .script shell => programName ++ " completion " ++ shell
  | verb => programName ++ " " ++ verb.name

/-- The names that are suggested for a name that is none. -/
def suggested : List String := ["expand", "version", "completion"]

/-- The flag that names a file of settings. Every command has it. -/
def settingsFlag : Flag := ⟨"config", .text, none, "config file (yaml, json or toml)", ""⟩

/-- The flag that asks for help on a command. Every command has it. -/
def Verb.helpFlag (verb : Verb) : Flag := ⟨"help", .switch, some 'h', "help for " ++ verb.name, "false"⟩

/-- The flags of a command that no other command has from it. -/
def Verb.ownFlags : Verb → List Flag
  | .synthesize => Config.flags
  | .expand =>
    [⟨"table", .text, none, "write the expanded table here (.json, .yaml)", ""⟩,
     ⟨"epsilon", .float, none, "verification tolerance", Decimal.Style.general.write Config.default.epsilon⟩,
     ⟨"strict", .switch, none, "exit non-zero on incomplete coverage or mismatches", "false"⟩]
  | .script _ => [⟨"no-descriptions", .switch, none, "disable completion descriptions", "false"⟩]
  | _ => []

/-- The flags of a command besides the one that asks for help. -/
def Verb.flags (verb : Verb) : List Flag := verb.ownFlags ++ [settingsFlag]

/-- Why there is nothing to do. -/
inductive RequestError where
  | unknownCommand (name parent : String) (suggestions : List String)
  | flags (e : FlagError)
  | argumentCount (wanted given : Nat)
  | tooFewArguments (least given : Nat)
deriving DecidableEq, Repr

/-- The wording of such an error. -/
def RequestError.message : RequestError → String
  | .unknownCommand name parent suggestions =>
    "unknown command " ++ Text.quoted name ++ " for " ++ Text.quoted parent ++
      (if suggestions.isEmpty then ""
      else "\n\nDid you mean this?\n" ++ String.join (suggestions.map fun s => "\t" ++ s ++ "\n"))
  | .flags e => e.message
  | .argumentCount wanted given =>
    "accepts " ++ toString wanted ++ " arg(s), received " ++ toString given
  | .tooFewArguments least given =>
    "requires at least " ++ toString least ++ " arg(s), only received " ++ toString given

/-! ### Suggestions -/

/-- The next row of the table of distances: the distances of a longer first text to all beginnings of the second. The
row before is given by its first distance and the others. -/
def distanceRow {α : Type} [DecidableEq α] (a : α) : Nat → Nat → List α → List Nat → List Nat
  | _, _, [], _ => []
  | _, _, _ :: _, [] => []
  | corner, before, b :: bs, above :: row =>
    let d := min (min (above + 1) (before + 1)) (corner + if a = b then 0 else 1)
    d :: distanceRow a above d bs row

/-- How many insertions, deletions and exchanges turn one list into the other, from the row of distances on. -/
def distanceFrom {α : Type} [DecidableEq α] (t : List α) : Nat → List Nat → List α → Nat
  | first, row, [] => row.getLastD first
  | first, row, a :: as => distanceFrom t (first + 1) (distanceRow a first (first + 1) t row) as

/-- How many insertions, deletions and exchanges turn one list into the other. -/
def distance {α : Type} [DecidableEq α] (s t : List α) : Nat :=
  distanceFrom t 0 (t.mapIdx fun i _ => i + 1) s

/-- Names that start with a text or are nearly the same, letter case aside. -/
def suggestions (typed : String) : List String :=
  let low := Text.lower typed
  suggested.filter fun name => distance low.toUTF8.toList name.toUTF8.toList ≤ 2 || low.toList.isPrefixOf name.toList

/-! ### Finding the command -/

/-- Whether an argument is a flag whose value is the next argument. -/
def takesNext (known : List Flag) (arg : String) : Bool :=
  let isSwitch (p : Flag → Bool) : Bool := known.any fun f => p f && f.kind = .switch
  !arg.contains '=' &&
    (match arg.toList with
    | '-' :: '-' :: name => !isSwitch fun f => f.name.toList = name
    | '-' :: c :: _ => arg.utf8ByteSize = 2 && !isSwitch fun f => f.letter = some c
    | _ => false)

/-- Whether an argument is no flag and not empty. -/
def isWord (arg : String) : Bool := arg ≠ "" && !arg.startsWith "-"

/-- The arguments that are no flags and no values of flags. A flag with its value at the end is not looked behind. -/
def words (known : List Flag) : List String → List String
  | [] => []
  | arg :: args =>
    if arg = "--" then []
    else if takesNext known arg then
      match args with
      | _ :: next :: later => words known (next :: later)
      | _ => []
    else if isWord arg then arg :: words known args
    else words known args

/-- The arguments without the first that is a given word. -/
def without (known : List Flag) (word : String) : List String → List String
  | [] => []
  | arg :: args =>
    if arg = "--" then arg :: args
    else if takesNext known arg then
      match args with
      | value :: later => arg :: value :: without known word later
      | [] => [arg]
    else if arg = word ∧ isWord arg then args
    else arg :: without known word args

/-- The command of a command that arguments name, if they name one, and its own arguments. -/
def Verb.next? (verb : Verb) (args : List String) : Option (Verb × List String) := do
  let word ← (words verb.flags args).head?
  let next ← verb.named.lookup word
  return (next, without verb.flags word args)

/-- The command and its own arguments. Commands of commands have none themselves. -/
def findVerb (args : List String) : Except RequestError (Verb × List String) :=
  match Verb.next? .synthesize args, words (Verb.flags .synthesize) args with
  | some (verb, own), _ => .ok ((verb.next? own).getD (verb, own))
  | none, [] => .ok (.synthesize, args)
  | none, word :: _ => .error (.unknownCommand word programName (suggestions word))

/-! ### Requests -/

/-- What is asked for, with all that is needed to do it. -/
inductive Request where
  | synthesize (arguments : Arguments)
  | expand (path table : RawText) (epsilon : Float) (strict : Bool)
  | version
  /-- help on a command -/
  | help (verb : Verb)
  /-- help on words that name no command -/
  | unknownTopic (topic : List String)
  /-- something for a shell: a script, help on one, or completed arguments -/
  | shell

/-- The last text given to a flag; empty if there is none. -/
def Arguments.text (a : Arguments) (name : String) : RawText :=
  match a.value? name with
  | some (.text t) => t
  | _ => .empty

/-- Whether a flag was set last to be true. -/
def Arguments.switch (a : Arguments) (name : String) : Bool :=
  match a.value? name with
  | some (.bool b) => b
  | _ => false

/-- The last number given to a flag. -/
def Arguments.number (a : Arguments) (name : String) (otherwise : Float) : Float :=
  match a.value? name with
  | some (.float x) => x
  | _ => otherwise

/-- A request of a command that takes no arguments. -/
def Verb.alone (verb : Verb) (a : Arguments) (r : Request) : Except RequestError Request :=
  match a.rest with
  | [] => .ok r
  | arg :: _ => .error (.unknownCommand arg verb.call [])

/-- The request for help on a command. -/
def Verb.helpRequest : Verb → Request
  | .script _ => .shell
  | .complete => .shell
  | verb => .help verb

/-- The request for help on words. -/
def topicRequest (topic : List String) : Request :=
  match findVerb topic with
  | .ok (.complete, _) => .unknownTopic topic
  | .ok (verb, _) => verb.helpRequest
  | .error _ => .unknownTopic topic

/-- The request of a command with the arguments that were read for it. -/
def Verb.request (verb : Verb) (a : Arguments) : Except RequestError Request :=
  if a.switch verb.helpFlag.name then .ok verb.helpRequest
  else
    match verb with
    | .synthesize => .ok (.synthesize a)
    | .expand =>
      match a.rest with
      | [path] => .ok (.expand path (a.text "table") (a.number "epsilon" Config.default.epsilon) (a.switch "strict"))
      | rest => .error (.argumentCount 1 rest.length)
    | .version => verb.alone a .version
    | .script _ => verb.alone a .shell
    | .help => .ok (topicRequest a.rest)
    | .completion => .ok (.help .completion)
    | .complete => .ok .shell

/-- What a command line asks for. Arguments to be completed are not read as flags. -/
def request (args : List String) : Except RequestError Request := do
  let (verb, own) ← findVerb args
  if verb = .complete then if own.isEmpty then .error (.tooFewArguments 1 0) else .ok .shell
  else
    match readArguments (verb.flags ++ [verb.helpFlag]) own with
    | .error e => .error (.flags e)
    | .ok a => verb.request a

end CliffordT.Command
