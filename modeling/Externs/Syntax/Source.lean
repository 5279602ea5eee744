import Externs.Syntax.Reader
import Externs.Syntax.Grammar.Rules

/-!
# Reading a source

* `Source.tree`: the syntax tree of a source. One that cannot be read has a faulty node
  at the row at which it breaks off.
-/

namespace Externs.Source

/-- More rules than can stand inside each other over a source of some length. -/
def depth (length : Nat) : Nat := 1000 * (length + 2)

/-- The tree of a list of glyphs. -/
def treeOfGlyphs (gs : List Glyph) : Node :=
  let c : Cursor := ⟨gs, gs.length, 0, 0⟩
  let m : Miss := ⟨gs.length, 0, 0, true⟩
  match read Grammar.rules (depth gs.length) (.call .program) true c m with
  | ⟨some (ns, _), _⟩ => .branch .program none 0 ns
  | ⟨none, m⟩ => .branch .program none 0 [.leaf .fault none m.faultRow "" (Glyph.text gs) false]

def tree (bytes : List UInt8) : Node := treeOfGlyphs (Glyph.ofBytes bytes)

end Externs.Source
