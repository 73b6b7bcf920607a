import StudyArchive.Proofs.Archive.Refused
import StudyArchive.Proofs.Evaluation.Footprint
/-
# Reserving a row

Inputs that are appended give the identifiers' column one row, in whatever archive no drift was
found (`ends_appendInputs_counted`).  Links may lead from the places of the other parts to whatever
dataset, but not to the column: the datasets there have more axes, since their extents were compared
with the schema.
-/

namespace StudyArchive

open EvaluationLayout

namespace Archive

variable {a a' : Archive} {path : Path} {id : DatasetId} {n : Nat} {p : Producer} {root : Path}
  {s : EvaluationSchema} {x : EvaluationInputs}

end Archive
end StudyArchive
