import CliffordT.Text.Raw

/-!
# Path texts

A path is a text of names between slashes. These functions look at the text alone: the directory part, brought into
its shortest form, and the extension of the last name.
-/

namespace CliffordT.Path

/-- The names of a path, with empty names where slashes meet or end the text. -/
def names (path : RawText) : List RawText := path.split '/'

/-- Whether a path starts at the root. -/
def isRooted (path : RawText) : Bool := path.bytes.head? = some 47

/-- Drop empty names and single dots, and let a double dot take back the name before it. Above a root there is
nothing, and above a relative start double dots stay. The names stand in reverse. -/
def cleanNames (rooted : Bool) : List RawText → List RawText → List RawText
  | done, [] => done
  | done, name :: rest =>
    if name = "" ∨ name = "." then cleanNames rooted done rest
    else if name = ".." then
      match done with
      | [] => cleanNames rooted (if rooted then [] else [".."]) rest
      | last :: before =>
        if last = ".." then cleanNames rooted (".." :: last :: before) rest else cleanNames rooted before rest
    else cleanNames rooted (name :: done) rest

/-- The shortest text for the same path. -/
def clean (path : RawText) : RawText :=
  let kept := (cleanNames (isRooted path) [] (names path)).reverse
  let text := RawText.intercalate "/" kept
  if isRooted path then "/" ++ text else if text = "" then "." else text

/-- The path of the directory that holds a path's last name. -/
def directory (path : RawText) : RawText :=
  let start := RawText.intercalate "/" (names path).dropLast
  clean (if start = "" ∧ isRooted path then "/" else start)

/-- The last name of a path from its last dot on; empty if it has no dot. -/
def extension (path : RawText) : RawText :=
  match ((names path).getLastD "").split '.' with
  | [] => ""
  | [_] => ""
  | parts => "." ++ parts.getLastD ""

end CliffordT.Path
