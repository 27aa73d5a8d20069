import CliffordT.Command.Expand
import CliffordT.Command.Help
import CliffordT.Command.Synthesis

/-!
# Executing a command line

The whole program as a function of its arguments, the files and what else is outside. What it tells a shell about itself
is left out.
-/

namespace CliffordT.Command

/-- The version of the program. -/
def version : String := "dev"

/-- The reply that tells the version. -/
def versionReply (fs : Files) : Reply := ⟨.done, programName ++ " " ++ version ++ "\n", "", fs⟩

/-- The reply that tells how a command is used. -/
def helpReply (verb : Verb) (fs : Files) : Reply := ⟨.done, verb.page, "", fs⟩

/-- The reply to a question for help on words that name no command. -/
def topicReply (topic : List String) (fs : Files) : Reply := ⟨.done, "", topicNote topic, fs⟩

/-- The reply to a shell, without what it is told. -/
def shellReply (fs : Files) : Reply := ⟨.done, "", "", fs⟩

/-- The reply to arguments that make no sense. -/
def refusal (e : RequestError) (fs : Files) : Reply := Reply.failed ⟨.failed, e.message⟩ "" "" fs

/-- Do what is asked for. -/
def perform (outside : Surroundings) (fs : Files) : Request → Reply
  | .synthesize a => synthesize outside fs a
  | .expand path table epsilon strict =>
    expandRecord (Locale.hasEastAsianScreen outside.environment) fs path table epsilon strict
  | .version => versionReply fs
  | .help verb => helpReply verb fs
  | .unknownTopic topic => topicReply topic fs
  | .shell => shellReply fs

/-- Execute a command line. -/
def execute (outside : Surroundings) (fs : Files) (args : List String) : Reply :=
  match request args with
  | .error e => refusal e fs
  | .ok r => perform outside fs r

end CliffordT.Command
