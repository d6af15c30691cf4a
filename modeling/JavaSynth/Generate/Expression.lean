import JavaSynth.Scope
import JavaSynth.Settings.Basic
import JavaSynth.Universe

set_option autoImplicit false

/-!
# Expressions at random

An expression of a requested type is made by layers, one for each level of precedence. A layer
either builds its operator from operands one level of complexity deeper or passes the request to
the next layer. The last layers choose a primary expression, which may have another type, and
repair it by a chain of accesses or replace it by a literal.

Each layer is a function of the generator for deeper levels. `level` ties them together: a level
counts the complexities that are left, and with none left there are only literals. More levels would
make no difference, so the generator is a layer on top of itself (`generateAt_eq`).
-/
namespace JavaSynth

structure ExprContext where
  settings : ExprSettings
  types : Universe
  classes : List ClassDecl

/-- The levels of precedence that deeper expressions are asked for at. -/
inductive Layer where
  | assignment
  | logicalOr
  | logicalAnd
  | equality
  | relational
  | additive
  | multiplicative
  | unary

inductive Member where
  | field (f : Binding)
  | method (m : Method)

def ClassDecl.membersFor (c : ClassDecl) (wanted : Ty) : List Member :=
  (c.fields.filter (·.ty.canServe wanted)).map .field ++
    (c.instanceMethods.filter (·.returns.canServe wanted)).map .method

namespace ExprContext

variable {σ : Type} [Source σ]

/-- A generator of expressions one or more levels deeper. -/
abbrev Deeper (σ : Type) := Layer → Scope → Ty → Gen σ Expr

/-- Below these draws a primary expression is of the kind named; above the last it is an
expression of any kind, one level deeper. -/
def literalShare : Float := 0.3

def newObjectShare : Float := 0.4

def newArrayShare : Float := 0.5

def variableShare : Float := 0.7

def callShare : Float := 0.8

def receiverShare : Float := 0.9

/-- A literal of type `t`, which is `null` for classes and arrays. -/
def literal (t : Ty) : Gen σ Expr :=
  match t with
  | .int => do
    let v ← Gen.int32
    pure (.literal (.int v) t)
  | .boolean => do
    let b ← Gen.coin 0.5
    pure (.literal (.boolean b) t)
  | _ => pure (.literal .null t)

def descend (scope : Scope) : Gen σ Scope := Gen.ofExcept scope.descend

/-- A layer builds its operator here. -/
def gate (x : ExprContext) (scope : Scope) (probability : Double) : Gen σ Bool :=
  if scope.complexity ≤ x.settings.maxComplexity then Gen.coin probability else pure false

def arguments (deeper : Deeper σ) (scope : Scope) (params : List Binding) : Gen σ (List Expr) := do
  let inner ← descend scope
  Gen.forEach (fun p => deeper .assignment inner p.ty) params

/-- A read of a variable that can serve for `t`, or of any if none can. -/
def variableRead (scope : Scope) (t : Ty) : Gen σ (Option Expr) :=
  match scope.candidates t with
  | [] => pure none
  | found => do
    let v ← Gen.pick found
    pure (some v.read)

/-- The methods of the receiver that can serve for `t`, or all of them if none can. -/
def callable (c : ClassDecl) (t : Ty) : List Method :=
  match c.instanceMethods.filter (·.returns.canServe t) with
  | [] => c.instanceMethods
  | found => found

/-- A call of a method of the implicit receiver, where there are a receiver and a method. -/
def ownCall (deeper : Deeper σ) (scope : Scope) (t : Ty) : Gen σ (Option Expr) :=
  match scope.receiver with
  | none => pure none
  | some c =>
    match callable c t with
    | [] => pure none
    | found => do
      let m ← Gen.pick found
      let args ← arguments deeper scope m.params
      pure (some (.ownCall m.name args m.returns))

/-- A primary expression, preferably of type `t`; there is none where the kind that was drawn has
nothing to offer. -/
def primary (x : ExprContext) (deeper : Deeper σ) (scope : Scope) (t : Ty) :
    Gen σ (Option Expr) := do
  let r ← Gen.real 1
  if r < literalShare ∨ x.settings.primaryLiteralComplexity < scope.complexity then
    some <$> literal t
  else if r < newObjectShare ∧ t.isNamed then pure (some (.newObject t))
  else if r < newArrayShare ∧ t.isArray then
    let inner ← descend scope
    let size ← deeper .assignment inner .int
    pure (some (.newArray size t))
  else if r < variableShare then variableRead scope t
  else if r < callShare then ownCall deeper scope t
  else if r < receiverShare then pure (scope.receiver.map fun c => .this c.reference)
  else
    let inner ← descend scope
    some <$> deeper .assignment inner t

/-- An access to a member of `target` that can serve for `t`. -/
def memberAccess (x : ExprContext) (deeper : Deeper σ) (scope : Scope) (t : Ty) (target : Expr)
    (className : String) : Gen σ (Option Expr) :=
  match ClassDecl.find? x.classes className with
  | none => pure none
  | some c =>
    match c.membersFor t with
    | [] => pure none
    | found => do
      match ← Gen.pick found with
      | .field f => pure (some (.field target f.name f.ty))
      | .method m => do
        let args ← arguments deeper scope m.params
        pure (some (.call target m.name args m.returns))

/-- One access on the way from the type of `target` to `t`: an index where the array leads there,
otherwise a member. -/
def access (x : ExprContext) (deeper : Deeper σ) (scope : Scope) (t : Ty) (target : Expr) :
    Gen σ (Option Expr) :=
  if target.ty.indexesTo t then do
    match ← Gen.ofExcept target.ty.component? with
    | none => pure none
    | some component =>
      let position ← deeper .assignment scope .int
      pure (some (.index target position component))
  else
    match target.ty with
    | .named name => memberAccess x deeper scope t target name
    | _ => pure none

/-- Follows accesses until the type is `t`, at most `links` of them. -/
def chain (x : ExprContext) (deeper : Deeper σ) (scope : Scope) (t : Ty) :
    Nat → Expr → Gen σ (Option Expr)
  | 0, target => pure (if target.ty = t then some target else none)
  | links + 1, target =>
    if target.ty = t then pure (some target)
    else do
      match ← access x deeper scope t target with
      | none => pure none
      | some next => chain x deeper scope t links next

/-- A primary expression of type `t`, repaired by accesses or replaced by a literal. -/
def postfixed (x : ExprContext) (deeper : Deeper σ) (scope : Scope) (t : Ty) : Gen σ Expr :=
  if x.settings.maxComplexity < scope.complexity then literal t
  else do
    match ← primary x deeper scope t with
    | none => literal t
    | some e =>
      if e.ty = t then pure e
      else if e.ty.isVoid || e.ty.isPrimitive then literal t
      else do
        let inner ← descend scope
        match ← chain x deeper inner t x.settings.maxPostfixChain e with
        | some e => pure e
        | none => literal t

def unaryOp? : Ty → Option UnaryOp
  | .int => some .neg
  | .boolean => some .not
  | _ => none

def unary (x : ExprContext) (deeper : Deeper σ) (scope : Scope) (t : Ty) : Gen σ Expr :=
  match unaryOp? t with
  | none => postfixed x deeper scope t
  | some op => do
    if ← gate x scope x.settings.unaryProbability then
      let inner ← descend scope
      let operand ← deeper .unary inner t
      pure (.unary op operand t)
    else postfixed x deeper scope t

/-- A binary layer: with some probability an operator between operands of a layer on each side, and
otherwise the next layer. The operator and the type of its operands are drawn first. -/
def binary (x : ExprContext) (deeper : Deeper σ) (probability : Double)
    (operator : Gen σ (BinaryOp × Ty)) (left right : Layer) (next : Scope → Ty → Gen σ Expr)
    (scope : Scope) (t : Ty) : Gen σ Expr := do
  if ← gate x scope probability then
    let (op, operandTy) ← operator
    let inner ← descend scope
    let l ← deeper left inner operandTy
    let r ← deeper right inner operandTy
    pure (.ofBinary op l r)
  else next scope t

def intOperator (family : List BinaryOp) : Gen σ (BinaryOp × Ty) := do
  let op ← Gen.pick family
  pure (op, .int)

def multiplicative (x : ExprContext) (deeper : Deeper σ) (scope : Scope) (t : Ty) : Gen σ Expr :=
  if t = .int then
    binary x deeper x.settings.multiplicativeProbability (intOperator BinaryOp.multiplicative)
      .multiplicative .unary (unary x deeper) scope t
  else unary x deeper scope t

def additive (x : ExprContext) (deeper : Deeper σ) (scope : Scope) (t : Ty) : Gen σ Expr :=
  if t = .int then
    binary x deeper x.settings.additiveProbability (intOperator BinaryOp.additive)
      .additive .multiplicative (multiplicative x deeper) scope t
  else multiplicative x deeper scope t

def relational (x : ExprContext) (deeper : Deeper σ) (scope : Scope) (t : Ty) : Gen σ Expr :=
  if t = .boolean then
    binary x deeper x.settings.relationalProbability (intOperator BinaryOp.relational)
      .relational .additive (additive x deeper) scope t
  else additive x deeper scope t

/-- A type made an array as long as a coin says so, at most `wraps` times. -/
def wrapOperand (probability : Double) : Nat → Ty → Gen σ Ty
  | 0, t => pure t
  | wraps + 1, t => do
    if ← Gen.coin probability then
      let dims ← arrayDims
      let wrapped ← Gen.ofExcept (t.arrayOf? dims)
      wrapOperand probability wraps wrapped
    else pure t

def equalityOperator (x : ExprContext) : Gen σ (BinaryOp × Ty) := do
  let t ← x.types.randomFieldType
  let t ← wrapOperand x.settings.equalityArrayProbability x.settings.maxEqualityArrayWraps t
  let op ← Gen.pick BinaryOp.equality
  pure (op, t)

def equality (x : ExprContext) (deeper : Deeper σ) (scope : Scope) (t : Ty) : Gen σ Expr :=
  if t = .boolean then
    binary x deeper x.settings.equalityProbability (equalityOperator x)
      .equality .relational (relational x deeper) scope t
  else relational x deeper scope t

def logicalAnd (x : ExprContext) (deeper : Deeper σ) (scope : Scope) (t : Ty) : Gen σ Expr :=
  if t = .boolean then
    binary x deeper x.settings.logicalAndProbability (pure (.and, .boolean))
      .logicalAnd .equality (equality x deeper) scope t
  else equality x deeper scope t

def logicalOr (x : ExprContext) (deeper : Deeper σ) (scope : Scope) (t : Ty) : Gen σ Expr :=
  if t = .boolean then
    binary x deeper x.settings.logicalOrProbability (pure (.or, .boolean))
      .logicalOr .logicalAnd (logicalAnd x deeper) scope t
  else logicalAnd x deeper scope t

/-- A location may become the target of an assignment, the likelier the less complex the scope. -/
def assignment (x : ExprContext) (deeper : Deeper σ) (scope : Scope) (t : Ty) : Gen σ Expr := do
  let e ← logicalOr x deeper scope t
  if e.isLocation then
    let draw ← Gen.index (max scope.complexity 1)
    let share ← Gen.ofExcept (sizeAdd .assignmentShare (scope.complexity / 3) 1)
    if draw < share then
      let inner ← descend scope
      let value ← deeper .assignment inner e.ty
      pure (.assign e value e.ty)
    else pure e
  else pure e

def layer (x : ExprContext) (deeper : Deeper σ) : Layer → Scope → Ty → Gen σ Expr
  | .assignment => assignment x deeper
  | .logicalOr => logicalOr x deeper
  | .logicalAnd => logicalAnd x deeper
  | .equality => equality x deeper
  | .relational => relational x deeper
  | .additive => additive x deeper
  | .multiplicative => multiplicative x deeper
  | .unary => unary x deeper

/-- The layers over a number of complexities that are left. -/
def level (x : ExprContext) : Nat → Deeper σ
  | 0 => fun _ _ t => literal t
  | left + 1 => layer x (level x left)

/-- The complexities that a scope leaves, its own included. -/
def levelsAt (x : ExprContext) (scope : Scope) : Nat :=
  x.settings.maxComplexity + 1 - scope.complexity

/-- The generator for what lies deeper than a scope. -/
def below (x : ExprContext) (scope : Scope) : Deeper σ :=
  level x (x.settings.maxComplexity - scope.complexity)

def generateAt (x : ExprContext) (which : Layer) (scope : Scope) (t : Ty) : Gen σ Expr :=
  level x (levelsAt x scope) which scope t

def generate (x : ExprContext) (scope : Scope) (t : Ty) : Gen σ Expr :=
  generateAt x .assignment scope t

end ExprContext
end JavaSynth
