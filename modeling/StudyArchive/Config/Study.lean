import StudyArchive.Config.Storage
/-
# Configurations of studies

What a study stores and where: the settings of its archive, which producers' evaluations are kept,
and whether results go into the archive, into memory, or both.
-/

namespace StudyArchive

/-- The models whose evaluations are stored. -/
inductive ModelSelection where
  /-- The model of the method at the top. -/
  | topMethod
  /-- The models of all methods. -/
  | allMethods
  | all
  | none
  deriving DecidableEq, Repr

def ModelSelection.name : ModelSelection → String
  | topMethod => "top_method"
  | allMethods => "all_methods"
  | all => "all"
  | none => "none"

def ModelSelection.every : List ModelSelection := [topMethod, allMethods, all, none]

/-- The interfaces whose evaluations are stored. -/
inductive InterfaceSelection where
  /-- The interfaces that simulations stand behind. -/
  | simulation
  | all
  | none
  deriving DecidableEq, Repr

def InterfaceSelection.name : InterfaceSelection → String
  | simulation => "simulation"
  | all => "all"
  | none => "none"

def InterfaceSelection.every : List InterfaceSelection := [simulation, all, none]

structure StudyConfig where
  storage : StorageConfig := {}
  models : ModelSelection := .topMethod
  interfaces : InterfaceSelection := .simulation
  /-- Whether results go into the archive. -/
  archived : Bool := true
  /-- Whether results are kept in memory. -/
  remembered : Bool := false
  deriving DecidableEq

/-- Refuse a configuration whose archive is wanted and cannot be opened. -/
def StudyConfig.validate (c : StudyConfig) : Except StorageError Unit :=
  if c.archived then c.storage.validate else .ok ()

end StudyArchive
