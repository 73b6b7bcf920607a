import StudyArchive.Attribute
import StudyArchive.Results.Value
/-
# Requests to keep results

A request says whose result it is about and what to do with it.
-/

namespace StudyArchive

/-- What is to be done with a result. -/
inductive ResultRequest where
  /-- Keep a result, labelled and described; a matrix may be kept transposed. -/
  | insert (run : MethodRun) (location : List String) (value : ResultValue)
      (scales : List DimScale) (attributes : List Attribute) (transpose : Bool)
  /-- Keep room for a vector or matrix. -/
  | reserve (run : MethodRun) (location : List String) (element : ElementType) (dims : List Nat)
      (scales : List DimScale) (attributes : List Attribute)
  /-- Fill a cell of a vector, or a row or column of a matrix, that room was kept for. -/
  | fill (run : MethodRun) (location : List String) (value : ResultValue) (index : Nat) (row : Bool)
  /-- Keep an array of empty slots. -/
  | reserveArray (run : MethodRun) (name : String) (size : Nat)
  /-- Fill a slot of an array. -/
  | fillArray (run : MethodRun) (name : String) (index : Nat) (value : ResultValue)
  | describeMethod (run : MethodRun) (attributes : List Attribute)
  | describeExecution (run : MethodRun) (attributes : List Attribute)
  /-- Describe a result that is kept. -/
  | describeResult (run : MethodRun) (location : List String) (attributes : List Attribute)
  | describeStudy (attributes : List Attribute)
  /-- Put everything where it is to be kept. -/
  | flush

end StudyArchive
