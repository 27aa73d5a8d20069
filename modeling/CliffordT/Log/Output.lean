import CliffordT.Files.Basic
import CliffordT.Log.Record

/-!
# Where log lines go

Lines go to the standard error output and, if a path is given, to a file. The file is opened with the first line that
it takes and stays the same from then on: a file that was there before gets every line at its end, a file that the log
made gets every line behind the bytes that the log has written, and a file that another one has been put in place of
gets its lines where nobody finds them. A file that a line would make too long is put away, and so is what else stands
in the way of a new one. A line that cannot be added is followed by a note on the standard error output.

What is put away gets a name with the time in it and is not kept here.
-/

namespace CliffordT.Log

/-- How many bytes the file of a log may have. -/
def maxFileBytes : Nat := 50 * 1024 * 1024

/-- How many bytes the time adds to the name of what is put away. -/
def stampBytes : Nat := 24

/-- The file of a log, with its size by the count of the log. -/
inductive LogFile where
  /-- no line has been added yet -/
  | closed
  /-- a file that was there before -/
  | found (place : Place) (size : Nat)
  /-- a file that the log made -/
  | made (place : Place) (size : Nat)
  /-- a file that stands nowhere any more -/
  | gone (size : Nat)
deriving DecidableEq, Repr

namespace LogFile

/-- Where the file of a log stands. -/
def place? : LogFile → Option Place
  | .found place _ => some place
  | .made place _ => some place
  | _ => none

/-- The size of the file of a log. -/
def size : LogFile → Nat
  | .closed => 0
  | .found _ size => size
  | .made _ size => size
  | .gone size => size

end LogFile

/-- Why a line was not added. -/
inductive LogFault where
  /-- what was tried, and the failed operation -/
  | operation (doing : String) (cause : FileError)
  /-- a line that is longer than a file may be -/
  | tooLong (bytes : Nat)
deriving DecidableEq, Repr

/-- The wording of such a cause. -/
def LogFault.message : LogFault → RawText
  | .operation doing cause => doing ++ ": " ++ cause.message
  | .tooLong bytes =>
    "write length " ++ toString bytes ++ " exceeds maximum file size " ++ toString maxFileBytes

/-- What prevents that something at a place is put away. The path has to end in its name, and the name has to take the
time. -/
def renameFault? (path : RawText) (place : Place) : Option FileFault :=
  let name := (Path.names path).getLastD ""
  if place = .root ∨ place.getLast? ≠ some name then some .exists
  else if maxNameBytes < name.size + stampBytes then some .tooLong
  else none

/-- Make a new file for a log, with the directories above it. What stands in its place is put away. -/
def openNew (fs : Files) (path : RawText) : Files × Except LogFault LogFile :=
  match fs.makeDirectories (Path.directory path) with
  | .error e => (e.files, .error (.operation "can't make directories for new logfile" e.toFileError))
  | .ok fs =>
    match fs.find path with
    | .error fault => (fs, .error (.operation "can't open new logfile" ⟨"open", path, fault⟩))
    | .ok (place, none) => (fs.insert place (.file ""), .ok (.made place 0))
    | .ok (place, some _) =>
      match renameFault? path place with
      | some fault => (fs, .error (.operation "can't rename log file" ⟨"rename", path, fault⟩))
      | none => (fs.supplant place "", .ok (.made place 0))

/-- Open the file of a log for a line of so many bytes. -/
def openFile (fs : Files) (path : RawText) (bytes : Nat) : Files × Except LogFault LogFile :=
  match fs.find path with
  | .error fault =>
    if fault = .notFound then openNew fs path
    else (fs, .error (.operation "error getting log file info" ⟨"stat", path, fault⟩))
  | .ok (place, some (.file text)) =>
    if maxFileBytes ≤ text.utf8ByteSize + bytes then openNew fs path
    else (fs, .ok (.found place text.utf8ByteSize))
  | .ok _ => openNew fs path

/-- The file of a log with room for a line of so many bytes: the one that is open, unless the line makes it too long. -/
def openFor (fs : Files) (path : RawText) (bytes : Nat) (file : LogFile) : Files × Except LogFault LogFile :=
  if maxFileBytes < bytes then (fs, .error (.tooLong bytes))
  else
    match if file = .closed then openFile fs path bytes else (fs, .ok file) with
    | (fs, .error f) => (fs, .error f)
    | (fs, .ok file) => if maxFileBytes < file.size + bytes then openNew fs path else (fs, .ok file)

/-- A text with another one written over it from a byte on. A gap between them is filled with zero bytes. -/
def overlay (old : String) (start : Nat) (new : String) : String :=
  if old.utf8ByteSize = start then old ++ new
  else
    let bytes := old.toUTF8.toList
    let front := bytes.take start ++ List.replicate (start - bytes.length) 0
    let back := bytes.drop (start + new.utf8ByteSize)
    Text.ofBytes (front ++ new.toUTF8.toList ++ back)

/-- The text of the file at a place; empty if there is none. -/
def textAt (fs : Files) (place : Place) : String :=
  match fs.node? place with
  | some (.file text) => text
  | _ => ""

/-- Add a line to an open file. -/
def LogFile.add (fs : Files) (line : String) : LogFile → Files × LogFile
  | .found place size =>
    (fs.insert place (.file (textAt fs place ++ line)), .found place (size + line.utf8ByteSize))
  | .made place size =>
    (fs.insert place (.file (overlay (textAt fs place) size line)), .made place (size + line.utf8ByteSize))
  | .gone size => (fs, .gone (size + line.utf8ByteSize))
  | .closed => (fs, .closed)

/-- What has been written. -/
structure Output where
  /-- the lines -/
  text : String
  /-- the lines, with the notes on lines that the file did not take -/
  noted : String
  files : Files
  file : LogFile

/-- Nothing written yet. -/
def Output.start (fs : Files) : Output := ⟨"", "", fs, .closed⟩

/-- Add a line to the file at a path. A file that cannot be opened leaves none open. -/
def Output.addLine (path : RawText) (line : String) (o : Output) : Output :=
  match openFor o.files path line.utf8ByteSize o.file with
  | (fs, .error f) =>
    { o with
      files := fs
      file := match f with | .tooLong _ => o.file | .operation _ _ => .closed
      noted := o.noted ++ "Failed to write to log, " ++ f.message.text ++ "\n" }
  | (fs, .ok file) =>
    let (fs, file) := file.add fs line
    { o with files := fs, file := file }

/-- Write a record if its level is written. -/
def Output.write (set : Level) (path : RawText) (time : String) (o : Output) (r : Record) : Output :=
  if !set.writes r.level then o
  else
    let line := r.line time
    let o : Output := { o with text := o.text ++ line, noted := o.noted ++ line }
    if path.isEmpty then o else o.addLine path line

/-- The output after another file has been put at a place. -/
def Output.replaced (place : Place) (o : Output) : Output :=
  if o.file.place? = some place then { o with file := .gone o.file.size } else o

/-- Write records at a time. -/
def writeAll (set : Level) (path : RawText) (time : String) (fs : Files) (records : List Record) : Output :=
  records.foldl (Output.write set path time) (Output.start fs)

end CliffordT.Log
