import Externs.Proofs.Syntax.Lawful
import Externs.Syntax.Source

/-!
# The laws of the declaration language

The grammar of the declaration language is surveyed, and each of its rules keeps to the laws.
So the tree of a source that can be read is lawful.

* `Grammar.survey`: which kinds of nodes the phrases make, as far as the laws need it.
* `Source.lawful_tree`: the tree of a source without a fault is lawful.
-/

namespace Externs

open Node

namespace Grammar

/-- Only some phrases matter: where nothing is told, a phrase makes nodes of any kind. -/
def survey : Survey Phrase where
  kinds
    | .propertyName => some Kind.propertyNames
    | .enumBody => some [.enumBody]
    | _ => none
  named
    | .name, .moduleName => some [.string, .identifier, .nestedIdentifier]
    | .name, .type | .name, .typeOperand | .name, .typePrimary | .name, .typeName => none
    | .name, _ | .newName, _ => some []
    | _, _ => none

theorem survey_holds : survey.Holds rules where
  kinds s := by cases s <;> decide +kernel
  named ρ s := by cases ρ <;> cases s <;> decide +kernel

theorem lawful_rules (s : Phrase) : (rules s).lawful survey = true := by
  cases s <;> decide +kernel

end Grammar

namespace Source

theorem lawful_program {cs : List Node} (h : ∀ c ∈ cs, c.Everywhere Lawful) (role : Option Role) (row : Nat) :
    (Node.branch .program role row cs).Everywhere Lawful := by
  have hall : ∀ k, Kinds.Has none k := nofun
  exact .branch ⟨by decide, fun c _ => Or.inr (hall c.kind), fun ρ x _ => hall x.kind, nofun, nofun⟩ h

/-- A tree without a fault is what the grammar makes. -/
theorem treeOfGlyphs_made {gs : List Glyph} (h : (treeOfGlyphs gs).faults = []) :
    ∃ ns, treeOfGlyphs gs = .branch .program none 0 ns ∧ Made Grammar.rules (.call .program) ns := by
  unfold treeOfGlyphs at h ⊢
  dsimp only at h ⊢
  split at h
  · rename_i ns d m hread
    have hgot := congrArg Reply.got hread
    exact ⟨ns, rfl, (read_made _).1 _ _ _ _ hgot⟩
  · simp [Node.faults, Node.isFault, Node.kind] at h

/-- **The tree of a source that can be read is lawful.** -/
theorem lawful_tree {bytes : List UInt8} (h : (tree bytes).faults = []) : (tree bytes).Everywhere Lawful := by
  obtain ⟨ns, htree, hmade⟩ := treeOfGlyphs_made h
  have hns := (hmade.lawful Grammar.survey_holds Grammar.lawful_rules).1 rfl
  have hlawful := lawful_program hns none 0
  rw [← htree] at hlawful
  exact hlawful

end Source

end Externs
