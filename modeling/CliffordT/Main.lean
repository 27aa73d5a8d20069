import CliffordT.Command.Execute
import Std.Time

/-!
# The program

The outer layer: it reads the files, variables and clocks that a command needs, lets the command decide what comes of
them, and then writes the files and texts that it leaves.

A search with a limited time is repeated with twice as many polls until the time is over or the search ends by itself.
-/

namespace CliffordT.Outer

open CliffordT.Command

/-- The text of a place. -/
def placeText (place : Place) : String :=
  match place with
  | [] => ""
  | name :: names =>
    if [name] = Place.root then "/" ++ (RawText.intercalate "/" names).text else (RawText.intercalate "/" place).text

/-- A tree with no files yet, in which relative paths begin at the working directory. -/
def hereTree : IO Files := do
  let names := (Path.names (← IO.currentDir).toString).filter fun name => !name.isEmpty
  return { Files.empty with start := Place.root ++ names }

/-- Add what stands along a path. -/
def look (fs : Files) (path : RawText) : IO Files := do
  let mut fs := fs
  let mut here := fs.origin path
  for name in (Path.names path).filter fun (name : RawText) => name ≠ "" ∧ name ≠ "." do
    here := if name = ".." then Files.above here else here ++ [name]
    let place := (IO.FS.DirEntry.mk "/" (placeText here)).path
    if ← place.isDir then
      fs := fs.insert here .directory
    else if ← place.pathExists then
      fs := fs.insert here (.file (Text.ofBytes (← IO.FS.readBinFile place).toList))
  return fs

/-- Whether something is renamed when a text takes its place: a directory, or a log that does not go on. -/
def isPutAway (log : Option Place) (place : Place) (text : String) : FileNode → Bool
  | .directory => true
  | .file old => log = some place && !text.startsWith old

/-- Make the directories that are new, and write the files that are new or have changed. -/
def store (stamp : String) (log : Option Place) (before after : Files) : IO Unit := do
  for (place, node) in after.nodes do
    let path := placeText place
    match node with
    | .directory => if (before.node? place).isNone then IO.FS.createDirAll path
    | .file text =>
      if before.node? place ≠ some node then
        if ((before.node? place).map (isPutAway log place text)).getD false then
          IO.FS.rename path (path ++ "-" ++ stamp)
        IO.FS.createDirAll (placeText place.dropLast)
        IO.FS.writeFile path text

/-- The place of a path at which something can stand. -/
def placeOf? (fs : Files) (path : RawText) : Option Place := ((fs.find path).toOption).map Prod.fst

/-- The local time as it stands in log records. -/
def timeText : IO String := do
  return (← Std.Time.PlainDateTime.now).format "uuuu-MM-dd HH:mm:ss"

/-- A random identity. -/
def randomId : IO String := do
  let bytes := (← IO.getRandomBytes 16).toList.mapIdx fun i b =>
    if i = 6 then b &&& 0x0f ||| 0x40 else if i = 8 then b &&& 0x3f ||| 0x80 else b
  let digits (from_ count : Nat) : String :=
    String.ofList (((bytes.drop from_).take count).flatMap fun b => Text.hex 2 b.toNat)
  return "-".intercalate [digits 0 4, digits 4 2, digits 6 2, digits 8 2, digits 10 6]

/-- The variables of the environment that set parameters or describe the screen. -/
def givenVariables : IO (List (String × String)) := do
  let found ← (Config.Key.all.map (fun k => Config.variableName k.name) ++ Locale.names).mapM fun name => do
    return (← IO.getEnv name).map fun v => (name, v)
  return found.filterMap id

/-- Nobody interrupts, but the time is over after so many polls. -/
def limited (polls : Nat) : Run.Supervision :=
  ⟨fun k => if k < polls then none else some .deadlineExceeded, fun _ => none⟩

/-- Nobody interrupts and the time is never over. -/
def unlimited : Run.Supervision := ⟨fun _ => none, fun _ => none⟩

/-- Make a pass that has to stop at a time, by trying ever larger numbers of polls. -/
def passUntil (deadline : Nat) (pass : Run.Supervision → Run.State → Run.State) (s : Run.State) :
    Nat → Nat → IO Run.State
  | 0, _ => IO.lazyPure fun _ => pass unlimited s
  | fuel + 1, polls => do
    let polls := if (← IO.monoNanosNow) < deadline then polls else 0
    let made ← IO.lazyPure fun _ => pass (limited (s.polls + polls)) s
    if made.result.timedOut ∧ (← IO.monoNanosNow) < deadline then passUntil deadline pass s fuel (2 * polls)
    else return made

/-- Make a pass and measure its time. -/
def timedPass (deadline : Option Nat) (pass : Run.Supervision → Run.State → Run.State) (s : Run.State) :
    IO (Run.State × Duration) := do
  let start ← IO.monoNanosNow
  let made ← match deadline with
    | none => IO.lazyPure fun _ => pass unlimited s
    | some d => if s.result.timedOut then pure s else passUntil d pass s 64 1
  return (made, ⟨(← IO.monoNanosNow) - start⟩)

/-- Search with both passes. -/
def searchTimed (c : Config) (begun : Nat) : IO (Except Run.Unfit Run.State × Run.Times) := do
  match Run.start c with
  | .error e => return (.error e, ⟨⟨0⟩, ⟨0⟩, ⟨0⟩⟩)
  | .ok s =>
    let allowed := c.timeout.nanoseconds.toNat
    let deadline := if allowed = 0 then none else some (begun + allowed)
    let (s, first) ← timedPass deadline Run.firstPass s
    let (s, second) ← timedPass deadline Run.secondPass s
    let s ← IO.lazyPure fun _ => s.verified
    return (.ok s, ⟨first, second, ⟨(← IO.monoNanosNow) - begun⟩⟩)

/-- Synthesize a table. -/
def synthesizeTimed (fs : Files) (a : Arguments) : IO Reply := do
  let begun ← IO.monoNanosNow
  match Job.load fs (← givenVariables) (← randomId) a with
  | .error f => return Reply.failed f "" "" fs
  | .ok job =>
    let c := job.config
    let fs ← [c.diagnostics, c.table, c.metricsFile, c.logFile].foldlM look fs
    let (searched, times) ← searchTimed c begun
    let reply := job.finish (← timeText) times fs searched
    store (← randomId) (placeOf? fs c.logFile) fs reply.files
    return reply

/-- Do what is asked for. -/
def performTimed (r : Request) : IO Reply := do
  let fs ← hereTree
  match r with
  | .synthesize a =>
    synthesizeTimed (← [Config.dotenvPath, a.text settingsFlag.name].foldlM look fs) a
  | .expand path table epsilon strict =>
    let fs ← [path, table].foldlM look fs
    let eastAsian := Locale.hasEastAsianScreen (← givenVariables)
    let reply := expandRecord eastAsian fs path table epsilon strict
    store (← randomId) none fs reply.files
    return reply
  | .version => return versionReply fs
  | .help verb => return helpReply verb fs
  | .unknownTopic topic => return topicReply topic fs
  | .shell => return shellReply fs

end CliffordT.Outer

/-- Execute the command line and end with its code. -/
def main (args : List String) : IO UInt32 := do
  let reply ← match CliffordT.Command.request args with
    | .error e => pure (CliffordT.Command.refusal e CliffordT.Files.empty)
    | .ok r => CliffordT.Outer.performTimed r
  (← IO.getStderr).putStr reply.stderr
  (← IO.getStdout).putStr reply.stdout
  return reply.exit.code.toUInt32
