import StudyArchive.Evaluation.Store
import StudyArchive.Parameters.Table
/-
# Storing parameters

The parameters of a producer's variables go into one dataset for each kind.
-/

namespace StudyArchive.Recording

/-- Store the table of a kind's records below a group. -/
def writeTable (group : Path) (p : VariableParameters) (k : VariableKind) :
    Archive.Action Unit := do
  let path := group.join k.name
  let table ← liftExcept (ParamTable.build path k (p.records k))
  unless (← get).contains path do
    Archive.createCompound path [table.rows.length] table.fields
  Archive.writeRecords path table.rows

/-- Store the parameters of a producer's variables. -/
def storeParameters (p : Producer) (parameters : VariableParameters) : Action Unit := do
  if (← get).store.selects p && !parameters.isEmpty then
    let group := (p.root.join "properties").join "variable_parameters"
    onArchive <| parameters.kinds.forM (writeTable group parameters)

end StudyArchive.Recording
