import Externs.Decl.Bind
import Externs.Syntax.Source

/-!
# The model of a file

A source that can be read gives a declaration graph, one that cannot be read gives
the line at which it is at fault.

* `Model.ofSource`: the model of a source.
* `ModelError.message`: the words for what went wrong.
-/

namespace Externs

inductive ModelError where
  /-- The source is at fault at a line. -/
  | fault (name : String) (line : Nat)
  /-- The file cannot be read. -/
  | unreadable (path reason : String)
  deriving DecidableEq, Repr

def ModelError.message : ModelError → String
  | fault name line => name ++ ":" ++ toString line ++ ": syntax error in declaration file"
  | unreadable path reason => "Cannot read " ++ path ++ ": " ++ reason

/-- The declarations of a file, and what it exports without a module to export it from. -/
structure Model where
  graph : Graph
  unbound : List String
  deriving Repr

namespace Model

def ofTree (ambient : Bool) (tree : Node) : Model :=
  let statements := outline tree
  ⟨bound ambient statements, Statement.unboundAll false statements⟩

/-- `name` is what the file goes by in messages. -/
def ofSource (name : String) (ambient : Bool) (bytes : List UInt8) : Except ModelError Model :=
  let tree := Source.tree bytes
  if tree.faults.isEmpty then .ok (ofTree ambient tree) else .error (.fault name tree.faultLine)

end Model

end Externs
