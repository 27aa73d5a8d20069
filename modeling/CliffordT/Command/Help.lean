import CliffordT.Command.Request
import CliffordT.Text.Grid

/-!
# Help on a command

A page says what a command is for, how it is called, which commands it has, and which flags, by their names: first those
it has besides the program, then those it has from it.
-/

namespace CliffordT.Command

/-! ### Flags -/

/-- The word for a value of a kind; a truth value has none. -/
def FlagKind.word : FlagKind → String
  | .int => " int"
  | .float => " float"
  | .text => " string"
  | .duration => " duration"
  | .switch => ""

/-- Whether a text is that of the value of a kind that needs no mention. -/
def FlagKind.isUnset (kind : FlagKind) (text : String) : Bool :=
  match kind with
  | .int => text = "0"
  | .float => text = "0"
  | .text => text = ""
  | .duration => text = "0s"
  | .switch => text = "false"

/-- A flag with its letter and the word for its value. -/
def Flag.form (f : Flag) : String :=
  (match f.letter with
  | some c => "  -" ++ c.toString ++ ", --"
  | none => "      --") ++ f.name ++ f.kind.word

/-- What a flag is for, with the value that it has otherwise. -/
def Flag.account (f : Flag) : String :=
  if f.kind.isUnset f.otherwise then f.purpose
  else f.purpose ++ " (default " ++ (if f.kind = .text then Text.quoted f.otherwise else f.otherwise) ++ ")"

/-- Flags by their names, a line for each. -/
def flagTable (flags : List Flag) : String :=
  let width := (flags.map fun f => f.form.length).foldl max 0
  let sorted := flags.mergeSort fun f g => f.name ≤ g.name
  "\n".intercalate (sorted.map fun f => f.form ++ Grid.blanks (width - f.form.length + 3) ++ f.account)

/-! ### Commands -/

namespace Verb

/-- What a command does, in a line. -/
def short : Verb → String
  | .synthesize => "Synthesize a Clifford+T phase table"
  | .expand => "Expand and verify a saved diagnostic record"
  | .version => "Print the version"
  | .help => "Help about any command"
  | .completion => "Generate the autocompletion script for the specified shell"
  | .script shell => "Generate the autocompletion script for " ++ shell
  | .complete => "Request shell completion choices for the specified command-line"

/-- What a command does. -/
def about : Verb → String
  | .synthesize =>
    "phasegate searches sequences of H, T and T† blocks for diagonal unitaries\n" ++
      "and records, for every quantized relative phase, the shortest sequence found.\n" ++
      "The first eighth of the circle is searched; the rest is derived with exact\n" ++
      "phase corrections."
  | .help =>
    "Help provides help for any command in the application.\nSimply type " ++ programName ++
      " help [path to command] for full details."
  | .completion =>
    "Generate the autocompletion script for " ++ programName ++ " for the specified shell.\n" ++
      "See each sub-command's help for details on how to use the generated script."
  | verb => verb.short

/-- How a command is called; not at all if it only has commands. -/
def forms : Verb → List String
  | .expand => [Verb.call .expand ++ " <diagnostics> [flags]"]
  | .help => [Verb.call .help ++ " [command] [flags]"]
  | .completion => []
  | verb => [verb.call ++ " [flags]"]

/-- The commands of a command that are told about. -/
def listed (verb : Verb) : List Verb :=
  let shown := (verb.named.map Prod.snd).filter (· ≠ .complete)
  shown.mergeSort fun a b => a.name ≤ b.name

/-- How many columns the names of commands take at least. -/
def nameColumns : Nat := 11

/-- How a command is called, its commands and its flags. -/
def usage (verb : Verb) : String :=
  let isProgram := verb = .synthesize
  let forms := verb.forms ++ (if verb.listed.isEmpty then [] else [verb.call ++ " [command]"])
  let commands := verb.listed.map fun v =>
    "\n  " ++ v.name ++ Grid.blanks (nameColumns - v.name.length) ++ " " ++ v.short
  let own := verb.ownFlags ++ [verb.helpFlag] ++ (if isProgram then [settingsFlag] else [])
  "Usage:" ++ String.join (forms.map fun f => "\n  " ++ f) ++
    (if commands.isEmpty then "" else "\n\nAvailable Commands:" ++ String.join commands) ++
    "\n\nFlags:\n" ++ flagTable own ++
    (if isProgram then "" else "\n\nGlobal Flags:\n" ++ flagTable [settingsFlag]) ++
    (if commands.isEmpty then ""
    else "\n\nUse \"" ++ verb.call ++ " [command] --help\" for more information about a command.") ++ "\n"

/-- The page of a command. -/
def page (verb : Verb) : String := verb.about ++ "\n\n" ++ verb.usage

end Verb

/-! ### Unknown topics -/

/-- Whether a text can stand between backquotes. -/
def takesBackquotes (s : String) : Bool :=
  s.toList.all fun c => c.toNat ≠ 0xfeff && (c = '\t' || 32 ≤ c.toNat) && c.toNat ≠ 96 && c.toNat ≠ 127

/-- The note on words that name no command. -/
def topicNote (topic : List String) : String :=
  let word (s : String) : String := if takesBackquotes s then "\x60" ++ s ++ "\x60" else Text.quoted s
  "Unknown help topic [" ++ " ".intercalate (topic.map word) ++ "]\n" ++ Verb.usage .synthesize

end CliffordT.Command
