import JavaSynth.Syntax.Expr

set_option autoImplicit false

/-!
# Statements

An `if` always has an `else`. One whose `then` is absent is a constructor of its own, and a block
is the list of its statements.
-/
namespace JavaSynth

inductive Stmt where
  | empty
  | declare (name : String) (ty : Ty) (init : Option Expr)
  | ifElse (condition : Expr) (thenBranch elseBranch : Stmt)
  | elseOnly (condition : Expr) (elseBranch : Stmt)
  | loop (condition : Expr) (body : Stmt)
  | eval (e : Expr)
  | ret (value : Option Expr)
  | block (body : List Stmt)
  deriving Inhabited

namespace Stmt

/-- The statement opens a nested scope or branch. -/
def isCompound : Stmt → Bool
  | ifElse _ _ _ | elseOnly _ _ | loop _ _ | block _ => true
  | _ => false

def isBlock : Stmt → Bool
  | block _ => true
  | _ => false

/-- An `if` whose `then` branch is dropped when it is an empty block. -/
def ofBranches (condition : Expr) (thenBranch elseBranch : Stmt) : Stmt :=
  match thenBranch with
  | .block [] => .elseOnly condition elseBranch
  | _ => .ifElse condition thenBranch elseBranch

end Stmt
end JavaSynth
