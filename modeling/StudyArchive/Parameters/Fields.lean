import StudyArchive.Parameters.Basic
/-
# Which parameters a kind has

Every kind of variable has its list of parameters, in the order in which a table of them lists its
columns.
-/

namespace StudyArchive

/-- A named parameter. -/
structure ParamField where
  name : String
  type : ParamType
  deriving DecidableEq, Repr

namespace VariableKind

/-- The bounds of an interval of reals. -/
def bounds : List ParamField := [⟨"lower_bound", .real⟩, ⟨"upper_bound", .real⟩]

/-- The parameters of a kind. -/
def fields : VariableKind → List ParamField
  | continuousDesign | continuousState | uniformUncertain | loguniformUncertain => bounds
  | discreteDesignRange | discreteStateRange => [⟨"lower_bound", .int⟩, ⟨"upper_bound", .int⟩]
  | discreteDesignSetInt | discreteStateSetInt => [⟨"elements", .ints⟩]
  | discreteDesignSetString | discreteStateSetString => [⟨"elements", .texts⟩]
  | discreteDesignSetReal | discreteStateSetReal => [⟨"elements", .reals⟩]
  | normalUncertain => [⟨"mean", .real⟩, ⟨"std_deviation", .real⟩] ++ bounds
  | lognormalUncertain =>
    [⟨"lambda", .real⟩, ⟨"zeta", .real⟩, ⟨"error_factor", .real⟩, ⟨"mean", .real⟩,
      ⟨"std_deviation", .real⟩] ++ bounds
  | triangularUncertain => ⟨"mode", .real⟩ :: bounds
  | exponentialUncertain => [⟨"beta", .real⟩]
  | betaUncertain => [⟨"alpha", .real⟩, ⟨"beta", .real⟩] ++ bounds
  | gammaUncertain | gumbelUncertain | frechetUncertain | weibullUncertain =>
    [⟨"alpha", .real⟩, ⟨"beta", .real⟩]
  | histogramBinUncertain | histogramPointUncertainReal =>
    [⟨"abscissas", .reals⟩, ⟨"counts", .reals⟩]
  | poissonUncertain => [⟨"lambda", .real⟩]
  | binomialUncertain | negativeBinomialUncertain =>
    [⟨"probability_per_trial", .real⟩, ⟨"num_trials", .int⟩]
  | geometricUncertain => [⟨"probability_per_trial", .real⟩]
  | hypergeometricUncertain =>
    [⟨"total_population", .int⟩, ⟨"selected_population", .int⟩, ⟨"num_drawn", .int⟩]
  | histogramPointUncertainInt => [⟨"abscissas", .ints⟩, ⟨"counts", .reals⟩]
  | histogramPointUncertainString => [⟨"abscissas", .texts⟩, ⟨"counts", .reals⟩]
  | continuousIntervalUncertain =>
    [⟨"probabilities", .reals⟩, ⟨"lower_bounds", .reals⟩, ⟨"upper_bounds", .reals⟩]
  | discreteIntervalUncertain =>
    [⟨"probabilities", .reals⟩, ⟨"lower_bounds", .ints⟩, ⟨"upper_bounds", .ints⟩]
  | discreteUncertainSetInt => [⟨"elements", .ints⟩, ⟨"probabilities", .reals⟩]
  | discreteUncertainSetString => [⟨"elements", .texts⟩, ⟨"probabilities", .reals⟩]
  | discreteUncertainSetReal => [⟨"elements", .reals⟩, ⟨"probabilities", .reals⟩]

/-- Whether a kind has arrays among its parameters. -/
def hasArrays (k : VariableKind) : Bool := k.fields.any (·.type.isArray)

end VariableKind
end StudyArchive
