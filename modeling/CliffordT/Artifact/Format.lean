import CliffordT.Artifact.Error
import CliffordT.Text.Letters

/-!
# Formats of artifacts

The extension of a path decides the format of the file, in any case of letters.
-/

namespace CliffordT

/-- The format of an artifact. -/
inductive Format where
  | json
  | yaml
deriving DecidableEq, Repr

namespace Format

/-- The name of a format. -/
def name : Format → String
  | .json => "json"
  | .yaml => "yaml"

/-- The format of a file. -/
def ofPath (path : RawText) : Except ArtifactError Format :=
  let ext := Text.lower (Path.extension path).text
  if ext = ".json" then .ok .json
  else if ext = ".yaml" ∨ ext = ".yml" then .ok .yaml
  else .error (.unknownFormat path)

end Format

end CliffordT
