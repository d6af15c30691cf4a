import JavaSynth.Draw.Weighted
import JavaSynth.Settings.Basic
import JavaSynth.Decimal.Notation

set_option autoImplicit false

/-!
# Validation

Settings that pass can be synthesized from. Each check has a cause of its own, and the first that
fails is reported.
-/
namespace JavaSynth

inductive SettingsError where
  | emptyWordList
  | emptyWord (position : Nat)
  | noStatementKinds
  | invalidWeight (label : String) (weight : Float)
  | nonPositiveTotalWeight (total : Float)
  | nonFiniteTotalWeight (total : Float)
  | aboveCap (name : String) (value cap : Nat)
  | primaryCeilingAboveMax (primary max : Nat)
  | noTypes
  | zeroNameLength
  | invalidProbability (name : String) (value : Double)

namespace SettingsError

def realText (x : Double) : String := Decimal.Notation.message.text x

def message : SettingsError → String
  | emptyWordList => "word list is empty"
  | emptyWord position => "word list contains an empty word at position " ++ toString position
  | noStatementKinds => "no statement kinds configured"
  | invalidWeight label weight =>
    "weight for " ++ label ++ " must be finite and non-negative, got " ++ realText (.ofFloat weight)
  | nonPositiveTotalWeight total =>
    "total statement weight must be positive, got " ++ realText (.ofFloat total)
  | nonFiniteTotalWeight total =>
    "total statement weight must be finite, got " ++ realText (.ofFloat total)
  | aboveCap name value cap =>
    name ++ " must be at most " ++ toString cap ++ ", got " ++ toString value
  | primaryCeilingAboveMax primary max =>
    "primary_literal_complexity (" ++ toString primary ++ ") must not exceed max_complexity (" ++
      toString max ++ ")"
  | noTypes => "max_types must be at least 1"
  | zeroNameLength => "approximate_name_length must be at least 1"
  | invalidProbability name value =>
    name ++ " must be a probability in [0, 1], got " ++ realText value

def ofWeightError {α : Type} (label : α → String) : WeightError Float α → SettingsError
  | .invalid item weight => invalidWeight (label item) weight
  | .nothingToChoose total => nonPositiveTotalWeight total
  | .notFinite total => nonFiniteTotalWeight total

end SettingsError

def checkProbability (name : String) (value : Double) : Except SettingsError Unit :=
  if 0 ≤ value.toFloat ∧ value.toFloat ≤ 1 then .ok () else .error (.invalidProbability name value)

def checkCap (name : String) (value cap : Nat) : Except SettingsError Unit :=
  if value ≤ cap then .ok () else .error (.aboveCap name value cap)

namespace ExprSettings

/-- The size of an expression is exponential in its complexity. -/
def complexityCap : Nat := 16

def postfixChainCap : Nat := 16

def arrayWrapsCap : Nat := 4

def validate (s : ExprSettings) : Except SettingsError Unit := do
  checkProbability "expr.logical_or_probability" s.logicalOrProbability
  checkProbability "expr.logical_and_probability" s.logicalAndProbability
  checkProbability "expr.equality_probability" s.equalityProbability
  checkProbability "expr.equality_array_probability" s.equalityArrayProbability
  checkProbability "expr.relational_probability" s.relationalProbability
  checkProbability "expr.additive_probability" s.additiveProbability
  checkProbability "expr.multiplicative_probability" s.multiplicativeProbability
  checkProbability "expr.unary_probability" s.unaryProbability
  checkCap "expr.max_complexity" s.maxComplexity complexityCap
  checkCap "expr.max_postfix_chain" s.maxPostfixChain postfixChainCap
  checkCap "expr.max_equality_array_wraps" s.maxEqualityArrayWraps arrayWrapsCap
  if s.maxComplexity < s.primaryLiteralComplexity then
    .error (.primaryCeilingAboveMax s.primaryLiteralComplexity s.maxComplexity)

end ExprSettings

namespace StmtSettings

/-- The number of nested statements is exponential in the complexity. -/
def complexityCap : Nat := 8

def resampleAttemptsCap : Nat := 256

def validate (s : StmtSettings) : Except SettingsError Unit := do
  checkProbability "stmt.initializer_probability" s.initializerProbability
  checkProbability "stmt.invocation_probability" s.invocationProbability
  checkCap "stmt.max_statement_complexity" s.maxStatementComplexity complexityCap
  checkCap "stmt.max_resample_attempts" s.maxResampleAttempts resampleAttemptsCap

end StmtSettings

namespace Settings

def statementChoice (s : Settings) : Except SettingsError (Weighted Float StmtKind) :=
  if s.statementWeights.isEmpty then .error .noStatementKinds
  else
    match Weighted.ofEntries (s.statementWeights.map fun (w, k) => (w.toFloat, k)) with
    | .ok choice => .ok choice
    | .error e => .error (.ofWeightError StmtKind.name e)

def checkWords (words : List String) : Except SettingsError Unit :=
  if words.isEmpty then .error .emptyWordList
  else
    match words.findIdx? (·.isEmpty) with
    | some position => .error (.emptyWord position)
    | none => .ok ()

def validate (s : Settings) : Except SettingsError Unit := do
  checkWords s.words
  if s.maxTypes = 0 then .error .noTypes
  if s.approximateNameLength = 0 then .error .zeroNameLength
  checkProbability "field_to_method_ratio" s.fieldToMethodRatio
  checkProbability "array_type_percentage" s.arrayTypePercentage
  checkProbability "thrown_type_probability" s.thrownTypeProbability
  s.expr.validate
  s.stmt.validate
  let _ ← s.statementChoice
  .ok ()

end Settings
end JavaSynth
