import StudyArchive.Path
/-
# Executions of methods

A method may be executed several times; each execution owns the results that it gave.
-/

namespace StudyArchive

/-- One execution of a method. -/
structure MethodRun where
  /-- The name of the method. -/
  method : String
  /-- The identifier of the method in its study. -/
  id : String
  /-- The number of the execution. -/
  execution : Nat
  deriving DecidableEq, Repr

namespace MethodRun

def methodPath (r : MethodRun) : Path := .ofTexts ["methods", r.id]

def path (r : MethodRun) : Path := (r.methodPath.join "results").join s!"execution:{r.execution}"

/-- The place of a result of the execution. -/
def resultPath (r : MethodRun) (location : List String) : Path := location.foldl Path.join r.path

def text (r : MethodRun) : String := s!"{r.method}:{r.id}#{r.execution}"

end MethodRun
end StudyArchive
