import JavaSynth.Draw.Weighted
import JavaSynth.Generate.Expression
import JavaSynth.Naming.CamelCase

set_option autoImplicit false

/-!
# Statements at random

The kind of a statement is drawn by weight, and drawn again a limited number of times where its
place does not allow it. Directly in a block a declared local stays visible to what follows; the
branch of an `if` or the body of a `while` neither declares nor returns.
-/
namespace JavaSynth

structure StmtContext where
  settings : Settings
  kinds : Weighted Float StmtKind
  types : Universe
  classes : List ClassDecl

inductive Position where
  | inBlock
  | branch

def Position.allows (p : Position) (settings : StmtSettings) (complexity : Nat) (k : StmtKind) :
    Bool :=
  !(k.isCompound && settings.maxStatementComplexity ≤ complexity) &&
    match p, k with
    | .inBlock, .ret => 1 < complexity
    | .branch, .ret | .branch, .declaration => false
    | _, _ => true

namespace StmtContext

variable {σ : Type} [Source σ]

def exprs (x : StmtContext) : ExprContext :=
  { settings := x.settings.expr, types := x.types, classes := x.classes }

def namer (x : StmtContext) : Namer :=
  { words := x.settings.words, approximateLength := x.settings.approximateNameLength }

def freshName (x : StmtContext) (scope : Scope) : Gen σ (Option String) :=
  Gen.firstAccepted x.namer.lowerCamel (!scope.isTaken ·) x.settings.stmt.maxResampleAttempts

/-- A declaration, and the scope after it; nothing is declared where no name is found. -/
def declaration (x : StmtContext) (scope : Scope) : Gen σ (Stmt × Scope) := do
  let ty ← x.types.pickFieldType x.settings.arrayTypePercentage
  match ← x.freshName scope with
  | none => pure (.empty, scope)
  | some name =>
    let hasInit ← Gen.coin x.settings.stmt.initializerProbability
    let init ← if hasInit then some <$> x.exprs.generate scope ty else pure none
    pure (.declare name ty init, scope.declare { name := name, ty := ty })

def assignment (x : StmtContext) (scope inner : Scope) : Gen σ Stmt :=
  match scope.visible with
  | [] => pure .empty
  | visible => do
    let v ← Gen.pick visible
    let value ← x.exprs.generate inner v.ty
    pure (.eval (.assign v.read value v.ty))

/-- A call on the implicit receiver or an assignment, and nothing where neither is possible. -/
def expression (x : StmtContext) (scope : Scope) : Gen σ Stmt := do
  let inner ← ExprContext.descend scope
  if ← Gen.coin x.settings.stmt.invocationProbability then
    let ty ← x.types.randomReturnType
    match ← ExprContext.ownCall (x.exprs.below inner) inner ty with
    | some call => pure (.eval call)
    | none => x.assignment scope inner
  else x.assignment scope inner

def ret (x : StmtContext) (scope : Scope) : Gen σ Stmt :=
  if scope.returns.isVoid then pure (.ret none)
  else do
    let e ← x.exprs.generateAt .logicalOr scope scope.returns
    pure (.ret (some e))

def conditional (x : StmtContext) (branch : Scope → Gen σ Stmt) (scope : Scope) : Gen σ Stmt := do
  let condition ← x.exprs.generate scope .boolean
  let thenBranch ← branch scope
  let elseBranch ← branch scope
  pure (.ofBranches condition thenBranch elseBranch)

def loop (x : StmtContext) (branch : Scope → Gen σ Stmt) (scope : Scope) : Gen σ Stmt := do
  let condition ← x.exprs.generate scope .boolean
  let body ← branch scope
  pure (.loop condition body)

/-- As many statements as told, each seeing the locals of those before, and the last scope. -/
def sequence (item : Scope → Gen σ (Stmt × Scope)) : Nat → Scope → Gen σ (List Stmt × Scope)
  | 0, scope => pure ([], scope)
  | count + 1, scope => do
    let (s, scope) ← item scope
    let (rest, scope) ← sequence item count scope
    pure (s :: rest, scope)

/-- The bytes that a statement takes in a list, what it refers to apart. -/
def statementBytes : Nat := 128

/-- The statements of a block that `item` makes. The outermost block of a method that gives a value
ends by returning one. -/
def blockOf (x : StmtContext) (item : Scope → Gen σ (Stmt × Scope)) (scope : Scope) :
    Gen σ (List Stmt) := do
  let inner ← ExprContext.descend scope
  let count ← Gen.upTo x.settings.maxStatementsPerBlock
  let room ← Gen.ofExcept (sizeAdd .blockRoom count 1)
  Gen.ofExcept (checkRoom statementBytes room)
  let (body, inner) ← sequence item count inner
  if scope.complexity = 0 ∧ !scope.returns.isVoid then
    let last ← x.ret inner
    pure (body ++ [last])
  else pure body

/-- A kind that the place allows, if one is drawn in time. -/
def drawKind (x : StmtContext) (p : Position) (scope : Scope) : Gen σ (Option StmtKind) :=
  Gen.firstAccepted x.kinds.draw (p.allows x.settings.stmt scope.complexity)
    x.settings.stmt.maxResampleAttempts

/-- A generator of statements in a place, with the scope after each. -/
abbrev Nested (σ : Type) := Position → Scope → Gen σ (Stmt × Scope)

/-- A branch; what is nested in it lies a level deeper. -/
def branch (x : StmtContext) (nested : Nested σ) (scope : Scope) : Gen σ Stmt := do
  let inside (s : Scope) : Gen σ Stmt := Prod.fst <$> nested .branch s
  match ← x.drawKind .branch scope with
  | some .expression => x.expression scope
  | some .conditional => do x.conditional inside (← ExprContext.descend scope)
  | some .loop => do x.loop inside (← ExprContext.descend scope)
  | some .block => do
    let inner ← ExprContext.descend scope
    .block <$> x.blockOf (nested .inBlock) inner
  | _ => pure .empty

/-- A statement directly in a block, and the scope after it. -/
def inBlock (x : StmtContext) (nested : Nested σ) (scope : Scope) : Gen σ (Stmt × Scope) := do
  let unchanged (s : Stmt) : Stmt × Scope := (s, scope)
  match ← x.drawKind .inBlock scope with
  | some .declaration => x.declaration scope
  | some .expression => unchanged <$> x.expression scope
  | some .conditional => unchanged <$> x.conditional (x.branch nested) scope
  | some .loop => unchanged <$> x.loop (x.branch nested) scope
  | some .ret => unchanged <$> x.ret scope
  | some .block => (unchanged ∘ .block) <$> x.blockOf (nested .inBlock) scope
  | _ => pure (.empty, scope)

/-- A statement in its place, over a number of complexities that allow compound statements. -/
def level (x : StmtContext) : Nat → Nested σ
  | 0 => fun _ scope => pure (.empty, scope)
  | left + 1 => fun
    | .branch, scope => do
      let s ← x.branch (level x left) scope
      pure (s, scope)
    | .inBlock, scope => x.inBlock (level x left) scope

/-- The levels that a scope leaves. At the greatest complexity one is left, for the statements that
are not compound. -/
def levelsAt (x : StmtContext) (scope : Scope) : Nat :=
  x.settings.stmt.maxStatementComplexity - scope.complexity + 1

def blockStatement (x : StmtContext) (scope : Scope) : Gen σ (Stmt × Scope) :=
  level x (levelsAt x scope) .inBlock scope

def statement (x : StmtContext) (scope : Scope) : Gen σ Stmt :=
  Prod.fst <$> level x (levelsAt x scope) .branch scope

def block (x : StmtContext) (scope : Scope) : Gen σ (List Stmt) :=
  x.blockOf (level x (levelsAt x scope) .inBlock) scope

def ifStatement (x : StmtContext) (scope : Scope) : Gen σ Stmt :=
  x.conditional x.statement scope

def whileStatement (x : StmtContext) (scope : Scope) : Gen σ Stmt :=
  x.loop x.statement scope

end StmtContext
end JavaSynth
