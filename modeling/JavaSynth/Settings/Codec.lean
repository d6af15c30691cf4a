import JavaSynth.Data.Record
import JavaSynth.Settings.Basic

set_option autoImplicit false

/-!
# Settings as data

Settings are read from profiles and written to manifests, field by field. The words are no part of
them: settings that are read have the built-in words.
-/
namespace JavaSynth

namespace StmtKind

def toValue (k : StmtKind) : Value := .string k.name

/-- A kind is its name, or an object that gives the name with nothing under it. -/
def ofValue? (d : Dialect) : Value → Option StmtKind
  | .string s => ofName? s
  | .object [(s, under)] => if d.isNothing under then ofName? s else none
  | _ => none

end StmtKind

namespace Settings

def weightFields : List (Field (Double × StmtKind)) :=
  [.part "kind" (·.2) (fun e k => (e.1, k)) StmtKind.toValue StmtKind.ofValue?,
    .real "weight" (·.1) (fun e w => (w, e.2))]

def weightsToValue (weights : List (Double × StmtKind)) : Value :=
  .array (weights.map (Record.toValue weightFields))

def weightsOfValue? (d : Dialect) : Value → Option (List (Double × StmtKind))
  | .array items => items.mapM (Record.ofWholeValue? d weightFields (0, .empty))
  | _ => none

end Settings

namespace ExprSettings

def fields : List (Field ExprSettings) :=
  [.real "logical_or_probability" (·.logicalOrProbability)
      (fun s x => { s with logicalOrProbability := x }),
    .real "logical_and_probability" (·.logicalAndProbability)
      (fun s x => { s with logicalAndProbability := x }),
    .real "equality_probability" (·.equalityProbability)
      (fun s x => { s with equalityProbability := x }),
    .real "equality_array_probability" (·.equalityArrayProbability)
      (fun s x => { s with equalityArrayProbability := x }),
    .size "max_equality_array_wraps" (·.maxEqualityArrayWraps)
      (fun s n => { s with maxEqualityArrayWraps := n }),
    .real "relational_probability" (·.relationalProbability)
      (fun s x => { s with relationalProbability := x }),
    .real "additive_probability" (·.additiveProbability)
      (fun s x => { s with additiveProbability := x }),
    .real "multiplicative_probability" (·.multiplicativeProbability)
      (fun s x => { s with multiplicativeProbability := x }),
    .real "unary_probability" (·.unaryProbability) (fun s x => { s with unaryProbability := x }),
    .size "max_complexity" (·.maxComplexity) (fun s n => { s with maxComplexity := n }),
    .size "primary_literal_complexity" (·.primaryLiteralComplexity)
      (fun s n => { s with primaryLiteralComplexity := n }),
    .size "max_postfix_chain" (·.maxPostfixChain) (fun s n => { s with maxPostfixChain := n })]

def toValue (s : ExprSettings) : Value := Record.toValue fields s

def ofValue? (d : Dialect) (v : Value) : Option ExprSettings := Record.ofValue? d fields {} v

end ExprSettings

namespace StmtSettings

def fields : List (Field StmtSettings) :=
  [.real "initializer_probability" (·.initializerProbability)
      (fun s x => { s with initializerProbability := x }),
    .real "invocation_probability" (·.invocationProbability)
      (fun s x => { s with invocationProbability := x }),
    .size "max_statement_complexity" (·.maxStatementComplexity)
      (fun s n => { s with maxStatementComplexity := n }),
    .size "max_resample_attempts" (·.maxResampleAttempts)
      (fun s n => { s with maxResampleAttempts := n })]

def toValue (s : StmtSettings) : Value := Record.toValue fields s

def ofValue? (d : Dialect) (v : Value) : Option StmtSettings := Record.ofValue? d fields {} v

end StmtSettings

namespace Settings

def fields : List (Field Settings) :=
  [.real "field_to_method_ratio" (·.fieldToMethodRatio)
      (fun s x => { s with fieldToMethodRatio := x }),
    .real "array_type_percentage" (·.arrayTypePercentage)
      (fun s x => { s with arrayTypePercentage := x }),
    .size "approximate_name_length" (·.approximateNameLength)
      (fun s n => { s with approximateNameLength := n }),
    .size "max_type_members" (·.maxTypeMembers) (fun s n => { s with maxTypeMembers := n }),
    .size "max_types" (·.maxTypes) (fun s n => { s with maxTypes := n }),
    .size "max_parameters" (·.maxParameters) (fun s n => { s with maxParameters := n }),
    .size "max_statements_per_block" (·.maxStatementsPerBlock)
      (fun s n => { s with maxStatementsPerBlock := n }),
    .real "thrown_type_probability" (·.thrownTypeProbability)
      (fun s x => { s with thrownTypeProbability := x }),
    .boolean "entry_point" (·.entryPoint) (fun s b => { s with entryPoint := b }),
    .part "statement_weights" (·.statementWeights) (fun s w => { s with statementWeights := w })
      weightsToValue weightsOfValue?,
    .part "expr" (·.expr) (fun s e => { s with expr := e }) ExprSettings.toValue
      ExprSettings.ofValue?,
    .part "stmt" (·.stmt) (fun s e => { s with stmt := e }) StmtSettings.toValue
      StmtSettings.ofValue?]

def toValue (s : Settings) : Value := Record.toValue fields s

def ofValue? (d : Dialect) (v : Value) : Option Settings := Record.ofValue? d fields {} v

end Settings
end JavaSynth
