/-
# Active sets

An active set says what is asked of an evaluation: for each function a mask of three bits (value,
gradient, Hessian), and the variables that derivatives are taken by.
-/

namespace StudyArchive

/-- What is asked of an evaluation. -/
structure ActiveSet where
  /-- The mask of each function. -/
  request : List UInt8 := []
  /-- The numbers of the variables that derivatives are taken by. -/
  derivatives : List Nat := []
  deriving DecidableEq

namespace ActiveSet

instance : Inhabited ActiveSet := ⟨{}⟩

def length (s : ActiveSet) : Nat := s.request.length

/-- Whether the mask of a function has one of the bits of another mask. -/
def asks (s : ActiveSet) (mask : UInt8) (i : Nat) : Bool :=
  match s.request[i]? with
  | some r => r &&& mask != 0
  | none => false

/-- Whether the value of a function is asked for. -/
def asksValue (s : ActiveSet) (i : Nat) : Bool := s.asks 1 i

/-- Whether the gradient of a function is asked for. -/
def asksGradient (s : ActiveSet) (i : Nat) : Bool := s.asks 2 i

/-- Whether the Hessian of a function is asked for. -/
def asksHessian (s : ActiveSet) (i : Nat) : Bool := s.asks 4 i

/-- The functions whose gradients are asked for. -/
def gradientIndices (s : ActiveSet) : List Nat := (List.range s.length).filter s.asksGradient

/-- The functions whose Hessians are asked for. -/
def hessianIndices (s : ActiveSet) : List Nat := (List.range s.length).filter s.asksHessian

end ActiveSet
end StudyArchive
