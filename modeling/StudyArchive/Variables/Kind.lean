/-
# Kinds of variables

The kind of a variable says what role it plays in a study, how its values are distributed or chosen,
and in which domain they lie.  The order of the kinds is the order in which tables of them are
filed.
-/

namespace StudyArchive

/-- Where the values of a variable lie. -/
inductive VariableDomain where
  | continuous
  | integer
  | text
  | real
  deriving DecidableEq, Repr

/-- The role of a variable and how its values are distributed or chosen. -/
inductive VariableKind where
  | continuousDesign
  | discreteDesignRange
  | discreteDesignSetInt
  | discreteDesignSetString
  | discreteDesignSetReal
  | normalUncertain
  | lognormalUncertain
  | uniformUncertain
  | loguniformUncertain
  | triangularUncertain
  | exponentialUncertain
  | betaUncertain
  | gammaUncertain
  | gumbelUncertain
  | frechetUncertain
  | weibullUncertain
  | histogramBinUncertain
  | poissonUncertain
  | binomialUncertain
  | negativeBinomialUncertain
  | geometricUncertain
  | hypergeometricUncertain
  | histogramPointUncertainInt
  | histogramPointUncertainString
  | histogramPointUncertainReal
  | continuousIntervalUncertain
  | discreteIntervalUncertain
  | discreteUncertainSetInt
  | discreteUncertainSetString
  | discreteUncertainSetReal
  | continuousState
  | discreteStateRange
  | discreteStateSetInt
  | discreteStateSetString
  | discreteStateSetReal
  deriving DecidableEq, Repr

namespace VariableKind

/-- All the kinds, in order. -/
def all : List VariableKind :=
  [continuousDesign, discreteDesignRange, discreteDesignSetInt, discreteDesignSetString,
    discreteDesignSetReal, normalUncertain, lognormalUncertain, uniformUncertain,
    loguniformUncertain, triangularUncertain, exponentialUncertain, betaUncertain, gammaUncertain,
    gumbelUncertain, frechetUncertain, weibullUncertain, histogramBinUncertain, poissonUncertain,
    binomialUncertain, negativeBinomialUncertain, geometricUncertain, hypergeometricUncertain,
    histogramPointUncertainInt, histogramPointUncertainString, histogramPointUncertainReal,
    continuousIntervalUncertain, discreteIntervalUncertain, discreteUncertainSetInt,
    discreteUncertainSetString, discreteUncertainSetReal, continuousState, discreteStateRange,
    discreteStateSetInt, discreteStateSetString, discreteStateSetReal]

def name : VariableKind → String
  | continuousDesign => "continuous_design"
  | discreteDesignRange => "discrete_design_range"
  | discreteDesignSetInt => "discrete_design_set_int"
  | discreteDesignSetString => "discrete_design_set_string"
  | discreteDesignSetReal => "discrete_design_set_real"
  | normalUncertain => "normal_uncertain"
  | lognormalUncertain => "lognormal_uncertain"
  | uniformUncertain => "uniform_uncertain"
  | loguniformUncertain => "loguniform_uncertain"
  | triangularUncertain => "triangular_uncertain"
  | exponentialUncertain => "exponential_uncertain"
  | betaUncertain => "beta_uncertain"
  | gammaUncertain => "gamma_uncertain"
  | gumbelUncertain => "gumbel_uncertain"
  | frechetUncertain => "frechet_uncertain"
  | weibullUncertain => "weibull_uncertain"
  | histogramBinUncertain => "histogram_bin_uncertain"
  | poissonUncertain => "poisson_uncertain"
  | binomialUncertain => "binomial_uncertain"
  | negativeBinomialUncertain => "negative_binomial_uncertain"
  | geometricUncertain => "geometric_uncertain"
  | hypergeometricUncertain => "hypergeometric_uncertain"
  | histogramPointUncertainInt => "histogram_point_uncertain_int"
  | histogramPointUncertainString => "histogram_point_uncertain_string"
  | histogramPointUncertainReal => "histogram_point_uncertain_real"
  | continuousIntervalUncertain => "continuous_interval_uncertain"
  | discreteIntervalUncertain => "discrete_interval_uncertain"
  | discreteUncertainSetInt => "discrete_uncertain_set_int"
  | discreteUncertainSetString => "discrete_uncertain_set_string"
  | discreteUncertainSetReal => "discrete_uncertain_set_real"
  | continuousState => "continuous_state"
  | discreteStateRange => "discrete_state_range"
  | discreteStateSetInt => "discrete_state_set_int"
  | discreteStateSetString => "discrete_state_set_string"
  | discreteStateSetReal => "discrete_state_set_real"

def domain : VariableKind → VariableDomain
  | discreteDesignRange | discreteDesignSetInt | poissonUncertain | binomialUncertain
  | negativeBinomialUncertain | geometricUncertain | hypergeometricUncertain
  | histogramPointUncertainInt | discreteIntervalUncertain | discreteUncertainSetInt
  | discreteStateRange | discreteStateSetInt => .integer
  | discreteDesignSetString | histogramPointUncertainString | discreteUncertainSetString
  | discreteStateSetString => .text
  | discreteDesignSetReal | histogramPointUncertainReal | discreteUncertainSetReal
  | discreteStateSetReal => .real
  | _ => .continuous

/-- The label of a kind: its name in capitals. -/
def label (k : VariableKind) : String := k.name.map Char.toUpper

/-- The kind of an exact name. -/
def ofName? (s : String) : Option VariableKind := all.find? (·.name = s)

/-- The kind that a name means, capital or small letters alike. -/
def ofLabel? (s : String) : Option VariableKind := ofName? (s.map Char.toLower)

theorem ofName?_name (k : VariableKind) : ofName? k.name = some k := by
  cases k <;> rfl

end VariableKind
end StudyArchive
