import JavaSynth.Syntax.Ty

set_option autoImplicit false

/-!
# Expressions

Every node carries its static type, so nothing has to infer one. A field or method reached
through the implicit receiver has no target and is a constructor of its own.
-/
namespace JavaSynth

inductive Literal where
  | int (value : Int)
  | boolean (value : Bool)
  | null
  deriving DecidableEq

inductive VariableKind where
  | localVariable
  | parameter
  deriving DecidableEq

inductive UnaryOp where
  | neg
  | not
  deriving DecidableEq

inductive BinaryOp where
  | or
  | and
  | eq
  | ne
  | lt
  | le
  | gt
  | ge
  | add
  | sub
  | mul
  | div
  | rem
  deriving DecidableEq

inductive Expr where
  | literal (value : Literal) (ty : Ty)
  | var (kind : VariableKind) (name : String) (ty : Ty)
  | ownField (name : String) (ty : Ty)
  | field (target : Expr) (name : String) (ty : Ty)
  | index (target position : Expr) (ty : Ty)
  | ownCall (name : String) (args : List Expr) (ty : Ty)
  | call (target : Expr) (name : String) (args : List Expr) (ty : Ty)
  | this (ty : Ty)
  | newObject (ty : Ty)
  | newArray (size : Expr) (ty : Ty)
  | unary (op : UnaryOp) (operand : Expr) (ty : Ty)
  | binary (op : BinaryOp) (left right : Expr) (ty : Ty)
  | assign (target value : Expr) (ty : Ty)
  deriving Inhabited

namespace UnaryOp

def text : UnaryOp → String
  | neg => "-"
  | not => "!"

def all : List UnaryOp := [neg, not]

end UnaryOp

namespace BinaryOp

def text : BinaryOp → String
  | or => "||"
  | and => "&&"
  | eq => "=="
  | ne => "!="
  | lt => "<"
  | le => "<="
  | gt => ">"
  | ge => ">="
  | add => "+"
  | sub => "-"
  | mul => "*"
  | div => "/"
  | rem => "%"

/-- The operators a layer chooses from are never empty lists, so each has a first one. -/
def equality : List BinaryOp := [eq, ne]

def relational : List BinaryOp := [lt, le, gt, ge]

def additive : List BinaryOp := [add, sub]

def multiplicative : List BinaryOp := [mul, div, rem]

def all : List BinaryOp := [or, and] ++ equality ++ relational ++ additive ++ multiplicative

/-- Arithmetic gives `int`; logic and comparison give `boolean`. -/
def resultTy : BinaryOp → Ty
  | add | sub | mul | div | rem => .int
  | or | and | eq | ne | lt | le | gt | ge => .boolean

end BinaryOp

namespace Expr

def ofBinary (op : BinaryOp) (left right : Expr) : Expr :=
  .binary op left right op.resultTy

/-- `0`, `false` or `null`. -/
def defaultLiteral (t : Ty) : Expr :=
  match t with
  | .int => .literal (.int 0) t
  | .boolean => .literal (.boolean false) t
  | _ => .literal .null t

def ty : Expr → Ty
  | literal _ t | var _ _ t | ownField _ t | field _ _ t | index _ _ t | ownCall _ _ t
  | call _ _ _ t | this t | newObject t | newArray _ t | unary _ _ t | binary _ _ _ t
  | assign _ _ t => t

def isLocation : Expr → Bool
  | var _ _ _ | ownField _ _ | field _ _ _ | index _ _ _ => true
  | _ => false

def isLiteral : Expr → Bool
  | literal _ _ => true
  | _ => false

end Expr
end JavaSynth
