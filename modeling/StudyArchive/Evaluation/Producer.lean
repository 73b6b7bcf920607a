import StudyArchive.Path
/-
# Producers of evaluations

Models and interfaces are evaluated; each has a group of its own for what is stored about it.  A
source is what a group's contents were made from: a producer or a method.
-/

namespace StudyArchive

/-- What stands behind an interface. -/
inductive InterfaceKind where
  | simulation
  | approximation
  deriving DecidableEq, Repr

/-- A model or an interface of a model. -/
inductive Producer where
  | model (type id : String)
  | interface (id owner : String) (kind : InterfaceKind)
  deriving DecidableEq, Repr

namespace Producer

def modelId : Producer → String
  | model _ id => id
  | interface _ owner _ => owner

/-- The group of a producer. -/
def root : Producer → Path
  | model type id => .ofTexts ["models", type, id]
  | interface id owner _ => .ofTexts ["interfaces", id, owner]

def text : Producer → String
  | model type id => s!"model:{type}/{id}"
  | interface id owner _ => s!"interface:{id}/{owner}"

end Producer

/-- What something was made from. -/
inductive Source where
  | method (id : String)
  | producer (p : Producer)
  deriving DecidableEq, Repr

namespace Source

/-- The group of a source. -/
def root : Source → Path
  | method id => .ofTexts ["methods", id]
  | producer p => p.root

/-- The name of the link to a source. -/
def linkName : Source → String
  | method id => id
  | producer (.model _ id) => id
  | producer (.interface id _ _) => id

end Source
end StudyArchive
