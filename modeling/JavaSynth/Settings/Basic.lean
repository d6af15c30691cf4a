import JavaSynth.Decimal.Double
import JavaSynth.Naming.DefaultWords

set_option autoImplicit false

/-!
# Settings

What a synthesis can be told: probabilities, limits, the weights of the kinds of statement, and
the words that names are made of. Every setting has a default.
-/
namespace JavaSynth

inductive StmtKind where
  | empty
  | declaration
  | expression
  | conditional
  | loop
  | ret
  | block
  deriving DecidableEq

namespace StmtKind

def all : List StmtKind := [empty, declaration, expression, conditional, loop, ret, block]

def name : StmtKind → String
  | empty => "empty"
  | declaration => "local_var"
  | expression => "expression"
  | conditional => "if"
  | loop => "while"
  | ret => "return"
  | block => "block"

def isCompound : StmtKind → Bool
  | conditional | loop | block => true
  | _ => false

def ofName? (s : String) : Option StmtKind := all.find? (·.name == s)

end StmtKind

structure ExprSettings where
  logicalOrProbability : Double := 0.15
  logicalAndProbability : Double := 0.09
  equalityProbability : Double := 0.08
  /-- The chance that the operands of an equality become arrays, tried up to
  `maxEqualityArrayWraps` times. -/
  equalityArrayProbability : Double := 0.05
  maxEqualityArrayWraps : Nat := 2
  relationalProbability : Double := 0.15
  additiveProbability : Double := 0.2
  multiplicativeProbability : Double := 0.1
  unaryProbability : Double := 0.2
  /-- Above this complexity every expression is a literal. -/
  maxComplexity : Nat := 10
  /-- Above this complexity every primary expression is a literal. -/
  primaryLiteralComplexity : Nat := 8
  /-- The greatest number of accesses chained to one expression. -/
  maxPostfixChain : Nat := 8

structure StmtSettings where
  initializerProbability : Double := 0.7
  /-- The chance that an expression statement tries to be a call. -/
  invocationProbability : Double := 0.6
  /-- From this complexity on there are no compound statements. -/
  maxStatementComplexity : Nat := 6
  /-- The draws for one statement, and for one name, before giving up. -/
  maxResampleAttempts : Nat := 16

def defaultStatementWeights : List (Double × StmtKind) :=
  [(0.05, .empty), (0.3, .declaration), (0.3, .expression), (0.1, .conditional), (0.08, .loop),
    (0.06, .ret), (0.07, .block)]

structure Settings where
  fieldToMethodRatio : Double := 0.3
  arrayTypePercentage : Double := 0.15
  /-- The greatest length that a name aims at. -/
  approximateNameLength : Nat := 20
  maxTypeMembers : Nat := 30
  maxTypes : Nat := 40
  maxParameters : Nat := 7
  maxStatementsPerBlock : Nat := 10
  /-- The chance of one more thrown type. -/
  thrownTypeProbability : Double := 0.1
  /-- Some class gets a static `main`. -/
  entryPoint : Bool := true
  statementWeights : List (Double × StmtKind) := defaultStatementWeights
  expr : ExprSettings := {}
  stmt : StmtSettings := {}
  words : List String := defaultWords

end JavaSynth
