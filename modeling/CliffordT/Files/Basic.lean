import CliffordT.Files.Path

/-!
# A tree of files

Directories and text files by their paths, as a value. Looking a path up goes through its names one by one, so a name
that is missing or is a file in the middle of a path is an error, told apart by the operation that met it.
-/

namespace CliffordT

/-- A place in the tree: the names from the start. -/
abbrev Place := List RawText

/-- The root of rooted paths, which has a name that no other place has. -/
def Place.root : Place := ["/"]

/-- What stands at a place. -/
inductive FileNode where
  | directory
  | file (text : String)
deriving DecidableEq, Repr

/-- What is wrong with a path. -/
inductive FileFault where
  | notFound
  | notDirectory
  | isDirectory
  | exists
  /-- a name or the whole path has too many bytes -/
  | tooLong
  /-- the path has a zero byte -/
  | invalid
deriving DecidableEq, Repr

/-- The wording of a fault. -/
def FileFault.message : FileFault → String
  | .notFound => "no such file or directory"
  | .notDirectory => "not a directory"
  | .isDirectory => "is a directory"
  | .exists => "file exists"
  | .tooLong => "file name too long"
  | .invalid => "invalid argument"

/-- How many bytes a name may have. -/
def maxNameBytes : Nat := 255

/-- How many bytes a path may have. -/
def maxPathBytes : Nat := 4095

/-- What is wrong with the text of a path, whatever the files are. -/
def FileFault.ofText? (path : RawText) : Option FileFault :=
  if path.bytes.contains 0 then some .invalid
  else if path.isEmpty then some .notFound
  else if maxPathBytes < path.size then some .tooLong
  else none

/-- A failed operation, its path and the fault. -/
structure FileError where
  action : String
  path : RawText
  fault : FileFault
deriving DecidableEq, Repr

/-- The wording of a failed operation. -/
def FileError.message (e : FileError) : RawText := e.action ++ " " ++ e.path ++ ": " ++ e.fault.message

/-- A tree of files. Each place stands in it once; the start and the root are always directories. -/
structure Files where
  nodes : List (Place × FileNode)
  /-- where paths that are not rooted begin -/
  start : Place
deriving DecidableEq, Repr

/-- An operation that failed on its way, and the files as it leaves them. -/
structure FileSetback extends FileError where
  files : Files
deriving DecidableEq, Repr

namespace Files

/-- A tree without files. -/
def empty : Files := ⟨[], []⟩

/-- What stands at a place. -/
def node? (fs : Files) (place : Place) : Option FileNode :=
  if place = fs.start ∨ place = .root then some .directory else fs.nodes.lookup place

/-- Put something at a place. -/
def insert (fs : Files) (place : Place) (node : FileNode) : Files :=
  if (fs.nodes.lookup place).isSome then
    { fs with nodes := fs.nodes.map fun (p, n) => if p = place then (p, node) else (p, n) }
  else { fs with nodes := fs.nodes ++ [(place, node)] }

/-- The text files with their places. -/
def texts (fs : Files) : List (Place × String) :=
  fs.nodes.filterMap fun (p, n) => match n with | .file text => some (p, text) | .directory => none

/-- The directory above a place; above the root there is none. -/
def above (here : Place) : Place := if here = .root then here else here.dropLast

/-- The place where a path begins. -/
def origin (fs : Files) (path : RawText) : Place := if Path.isRooted path then .root else fs.start

/-- Follow names from a directory. Nothing may stand at the last one. -/
def follow (fs : Files) : Place → List RawText → Except FileFault (Place × Option FileNode)
  | here, [] => .ok (here, some .directory)
  | here, name :: rest =>
    if name = "" ∨ name = "." then follow fs here rest
    else if name = ".." then follow fs (above here) rest
    else if maxNameBytes < name.size then .error .tooLong
    else
      let next := here ++ [name]
      match fs.node? next with
      | some .directory => follow fs next rest
      | some (.file text) => if rest.isEmpty then .ok (next, some (.file text)) else .error .notDirectory
      | none => if rest.isEmpty then .ok (next, none) else .error .notFound

/-- Follow a path. -/
def find (fs : Files) (path : RawText) : Except FileFault (Place × Option FileNode) :=
  match FileFault.ofText? path with
  | some fault => .error fault
  | none => fs.follow (fs.origin path) (Path.names path)

/-- Whether something stands at a path. -/
def has (fs : Files) (path : RawText) : Bool :=
  match fs.find path with
  | .ok (_, some _) => true
  | _ => false

/-- The text of a file. -/
def read (fs : Files) (path : RawText) : Except FileError String :=
  match fs.find path with
  | .ok (_, some (.file text)) => .ok text
  | .ok (_, some .directory) => .error ⟨"read", path, .isDirectory⟩
  | .ok (_, none) => .error ⟨"open", path, .notFound⟩
  | .error fault => .error ⟨"open", path, fault⟩

/-- Make a file hold a text. -/
def write (fs : Files) (path : RawText) (text : String) : Except FileError Files :=
  match fs.find path with
  | .ok (_, some .directory) => .error ⟨"open", path, .isDirectory⟩
  | .ok (place, _) => .ok (fs.insert place (.file text))
  | .error fault => .error ⟨"open", path, fault⟩

/-- Make the directories on the way along names, each one unless it is there. The texts of the paths are built beside
the places; all but the last end in a slash. The directories before the one that fails stay. -/
def makeAlong (fs : Files) : Place → RawText → List RawText → Except FileSetback Files
  | _, _, [] => .ok fs
  | here, text, name :: rest =>
    let place := if name = ".." then above here else here ++ [name]
    let path := text ++ name ++ (if rest.isEmpty then "" else "/")
    match FileFault.ofText? path, fs.node? place with
    | some fault, _ => .error ⟨⟨"mkdir", path, fault⟩, fs⟩
    | none, some .directory => makeAlong fs place path rest
    | none, some (.file _) => .error ⟨⟨"mkdir", path, if rest.isEmpty then .notDirectory else .exists⟩, fs⟩
    | none, none =>
      if maxNameBytes < name.size then .error ⟨⟨"mkdir", path, .tooLong⟩, fs⟩
      else makeAlong (fs.insert place .directory) place path rest

/-- Make a directory with all directories above it. The path has to be clean. -/
def makeDirectories (fs : Files) (path : RawText) : Except FileSetback Files :=
  let along := (Path.names path).filter fun (name : RawText) => name ≠ "" ∧ name ≠ "."
  fs.makeAlong (fs.origin path) (if Path.isRooted path then "/" else "") along

/-- Make a file hold a text, with the directories above it. -/
def place (fs : Files) (path : RawText) (text : String) : Except FileSetback Files := do
  let made ← fs.makeDirectories (Path.directory path)
  (made.write path text).mapError fun e => ⟨e, made⟩

/-- Make a file stand at a place with nothing below it. What was there goes away, but not the directory where paths
begin: if it goes along, they still begin in it. -/
def supplant (fs : Files) (place : Place) (text : String) : Files :=
  let stays (p : Place) : Bool :=
    !place.isPrefixOf p || p = place || (place.isPrefixOf fs.start && fs.start.isPrefixOf p)
  insert { fs with nodes := fs.nodes.filter fun (p, _) => stays p } place (.file text)

end Files

end CliffordT
