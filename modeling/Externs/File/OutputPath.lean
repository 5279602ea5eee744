import Externs.File.Path
import Externs.Text.Quoted

/-!
# Output paths

A listing is written beside its source: the name of the source up to its last dot,
with the extension in place of the rest.

* `outputPath`: the derived path.
* `targetPath`: where the listing goes.
* `NameFault.message`: why there is none.
-/

namespace Externs

def defaultExtension : String := ".externs"

/-- A name up to its last dot, or all of it. -/
def baseName (name : String) : String := ((Path.splitLastDot name).map (·.1)).getD name

def outputPath (input : Path) (extension : String) : Except NameFault Path :=
  input.withName (baseName input.name ++ extension)

/-- The derived path as a listing goes to it, read as every path is. -/
def targetPath (input : Path) (extension : String) : Except NameFault Path :=
  (outputPath input extension).map Path.reread

def NameFault.message : NameFault → String
  | unnamed p => "PosixPath(" ++ quoted p.toString ++ ") has an empty name"
  | invalid name => "Invalid name " ++ quoted name

end Externs
