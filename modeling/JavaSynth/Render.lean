import JavaSynth.Syntax.Program

set_option autoImplicit false

/-!
# Source text

Expressions are written with the fewest parentheses that precedence allows. A member of the
implicit receiver is written `this.name`. A nested block opens on the line of its `if`, `else` or
`while`; every other branch goes on a line of its own, one level deeper.
-/
namespace JavaSynth

/-- How tightly an operator binds; a greater number binds tighter. -/
def BinaryOp.precedence : BinaryOp → Nat
  | .or => 3
  | .and => 4
  | .eq | .ne => 8
  | .lt | .le | .gt | .ge => 9
  | .add | .sub => 11
  | .mul | .div | .rem => 12

namespace Expr

def assignPrecedence : Nat := 1

def unaryPrecedence : Nat := 13

/-- An array creation cannot be indexed or dereferenced as it stands. -/
def newArrayPrecedence : Nat := 14

def postfixPrecedence : Nat := 15

/-- A negative literal binds like the unary minus it is written with. -/
def precedence : Expr → Nat
  | assign _ _ _ => assignPrecedence
  | binary op _ _ _ => op.precedence
  | unary _ _ _ => unaryPrecedence
  | literal (.int v) _ => if v < 0 then unaryPrecedence else postfixPrecedence
  | newArray _ _ => newArrayPrecedence
  | _ => postfixPrecedence

/-- The text of `e`, in parentheses where `e` binds looser than its place asks. -/
def guarded (least : Nat) (e : Expr) (text : List Char) : List Char :=
  if e.precedence < least then '(' :: text ++ [')'] else text

end Expr

def Literal.chars : Literal → List Char
  | .int v => (toString v).toList
  | .boolean true => "true".toList
  | .boolean false => "false".toList
  | .null => "null".toList

mutual

/-- The text of a node without parentheses around it. -/
def Expr.chars : Expr → List Char
  | .literal value _ => value.chars
  | .var _ name _ => name.toList
  | .ownField name _ => "this.".toList ++ name.toList
  | .field target name _ =>
    target.guarded Expr.postfixPrecedence target.chars ++ '.' :: name.toList
  | .index target position _ =>
    target.guarded Expr.postfixPrecedence target.chars ++
      '[' :: (position.guarded 0 position.chars ++ [']'])
  | .ownCall name args _ => "this.".toList ++ name.toList ++ '(' :: (Expr.argChars args ++ [')'])
  | .call target name args _ =>
    target.guarded Expr.postfixPrecedence target.chars ++
      '.' :: (name.toList ++ '(' :: (Expr.argChars args ++ [')']))
  | .this _ => "this".toList
  | .newObject ty => "new ".toList ++ ty.chars ++ "()".toList
  | .newArray size ty =>
    "new ".toList ++ ty.element.chars ++
      '[' :: (size.guarded 0 size.chars ++ ']' :: Ty.brackets (ty.dims - 1))
  | .unary op operand _ =>
    op.text.toList ++ operand.guarded Expr.newArrayPrecedence operand.chars
  | .binary op left right _ =>
    left.guarded op.precedence left.chars ++
      ' ' :: (op.text.toList ++ ' ' :: right.guarded (op.precedence + 1) right.chars)
  | .assign target value _ =>
    target.guarded Expr.postfixPrecedence target.chars ++
      " = ".toList ++ value.guarded Expr.assignPrecedence value.chars

def Expr.argChars : List Expr → List Char
  | [] => []
  | [e] => e.guarded Expr.assignPrecedence e.chars
  | e :: rest =>
    e.guarded Expr.assignPrecedence e.chars ++ ", ".toList ++ Expr.argChars rest

end

namespace Expr

/-- The text of an expression in a place that asks for precedence `least`. -/
def charsAt (least : Nat) (e : Expr) : List Char := e.guarded least e.chars

def render (e : Expr) : String := String.ofList (e.charsAt 0)

end Expr

def margin (level : Nat) : List Char := List.replicate (4 * level) ' '

/-- A branch of `if`, `else` or `while`: a block stays on the line, anything else moves to the
next one. -/
def Stmt.branch (level : Nat) (s : Stmt) (chars : Nat → List Char) : List Char :=
  if s.isBlock then ' ' :: chars level else '\n' :: (margin (level + 1) ++ chars (level + 1))

/-- `else` follows a block on its line and otherwise starts a line. -/
def Stmt.elseChars (level : Nat) (afterBlock : Bool) : List Char :=
  if afterBlock then " else".toList else '\n' :: (margin level ++ "else".toList)

mutual

/-- The text of a statement at a level, from its first character on. -/
def Stmt.chars : Stmt → Nat → List Char
  | .empty, _ => [';']
  | .declare name ty none, _ => ty.chars ++ ' ' :: (name.toList ++ [';'])
  | .declare name ty (some init), _ =>
    ty.chars ++ ' ' :: (name.toList ++ " = ".toList ++ init.charsAt Expr.assignPrecedence ++ [';'])
  | .ifElse condition thenBranch elseBranch, level =>
    "if (".toList ++ condition.charsAt 0 ++ ')' ::
      (thenBranch.branch level thenBranch.chars ++ Stmt.elseChars level thenBranch.isBlock ++
        elseBranch.branch level elseBranch.chars)
  | .elseOnly condition elseBranch, level =>
    "if (".toList ++ condition.charsAt 0 ++ ") ;".toList ++ Stmt.elseChars level false ++
      elseBranch.branch level elseBranch.chars
  | .loop condition body, level =>
    "while (".toList ++ condition.charsAt 0 ++ ')' :: body.branch level body.chars
  | .eval e, _ => e.charsAt 0 ++ [';']
  | .ret none, _ => "return;".toList
  | .ret (some e), _ => "return ".toList ++ e.charsAt 0 ++ [';']
  | .block body, level => "\x7b\n".toList ++ Stmt.lines body (level + 1) ++ margin level ++ ['\x7d']

/-- One line or more for each statement of a block. -/
def Stmt.lines : List Stmt → Nat → List Char
  | [], _ => []
  | s :: rest, level => margin level ++ s.chars level ++ '\n' :: Stmt.lines rest level

end

def Stmt.render (s : Stmt) : String := String.ofList (s.chars 0)

def Binding.chars (b : Binding) : List Char := b.ty.chars ++ ' ' :: b.name.toList

def commaSeparated (items : List (List Char)) : List Char :=
  (", ".toList).intercalate items

namespace Method

def modifiers (m : Method) : List Char :=
  if m.isStatic then "public static ".toList else "public ".toList

def throwsClause (m : Method) : List Char :=
  if m.thrown.isEmpty then [] else " throws ".toList ++ commaSeparated (m.thrown.map (·.toList))

/-- A method in a class, which is indented by one level; without a body its block is empty. -/
def chars (m : Method) : List Char :=
  margin 1 ++ m.modifiers ++ m.returns.chars ++ ' ' :: (m.name.toList ++
    '(' :: (commaSeparated (m.params.map (·.chars)) ++ ')' :: (m.throwsClause ++
      ' ' :: ((Stmt.block (m.body.getD [])).chars 1 ++ ['\n']))))

end Method

namespace ClassDecl

def fieldChars (f : Binding) : List Char :=
  margin 1 ++ "public ".toList ++ f.chars ++ ";\n".toList

/-- A blank line stands before each method but one that opens the class. -/
def chars (c : ClassDecl) : List Char :=
  "class ".toList ++ c.name.toList ++ " \x7b\n".toList ++
    (c.fields.map fieldChars).flatten ++
    (if c.fields.isEmpty then [] else if c.methods.isEmpty then [] else ['\n']) ++
    ['\n'].intercalate (c.methods.map Method.chars) ++ "\x7d\n".toList

end ClassDecl

namespace Program

def chars (p : Program) : List Char :=
  ['\n'].intercalate (p.classes.map ClassDecl.chars)

def render (p : Program) : String := String.ofList p.chars

end Program
end JavaSynth
