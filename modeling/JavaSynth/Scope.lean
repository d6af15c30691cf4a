import JavaSynth.Syntax.Program

set_option autoImplicit false

/-!
# Scopes

What a method body can refer to at one of its points. A scope is a value: a local declared in one
scope is not seen in a scope made before from the same place.
-/
namespace JavaSynth

/-- A visible variable comes from a declaration or is a field of the receiver. -/
inductive VariableSource where
  | declared (kind : VariableKind)
  | ownField
  deriving DecidableEq

structure Variable where
  source : VariableSource
  name : String
  ty : Ty
  deriving DecidableEq

namespace Variable

def read (v : Variable) : Expr :=
  match v.source with
  | .declared kind => .var kind v.name v.ty
  | .ownField => .ownField v.name v.ty

def ofBinding (source : VariableSource) (b : Binding) : Variable :=
  { source, name := b.name, ty := b.ty }

end Variable

structure Scope where
  /-- In order of declaration. -/
  locals : List Binding
  params : List Binding
  /-- The class of the implicit receiver; there is none in a static method. -/
  receiver : Option ClassDecl
  enclosing : ClassDecl
  returns : Ty
  /-- The depth of nesting, which the generators limit. -/
  complexity : Nat

namespace Scope

def ofMethod (c : ClassDecl) (params : List Binding) (returns : Ty) : Scope :=
  { locals := [], params, receiver := some c, enclosing := c, returns, complexity := 0 }

/-- The body of a static method, which sees no parameter and no member. -/
def ofStatic (c : ClassDecl) (returns : Ty) (complexity : Nat) : Scope :=
  { locals := [], params := [], receiver := none, enclosing := c, returns, complexity }

def deeper (s : Scope) : Scope := { s with complexity := s.complexity + 1 }

/-- `deeper` where the complexity stays a size. -/
def descend (s : Scope) : Except Fault Scope :=
  (sizeAdd .complexity s.complexity 1).map fun c => { s with complexity := c }

def declare (s : Scope) (b : Binding) : Scope := { s with locals := s.locals ++ [b] }

def isStatic (s : Scope) : Bool := s.receiver.isNone

/-- A local or a parameter has this name. -/
def isTaken (s : Scope) (name : String) : Bool :=
  s.locals.any (·.name == name) || s.params.any (·.name == name)

/-- Locals first, then parameters, then the fields of the receiver. -/
def visible (s : Scope) : List Variable :=
  s.locals.map (.ofBinding (.declared .localVariable)) ++
    s.params.map (.ofBinding (.declared .parameter)) ++
    ((s.receiver.map (·.fields)).getD []).map (.ofBinding .ownField)

/-- The variables that can serve for `wanted`, or all of them if none can. -/
def candidates (s : Scope) (wanted : Ty) : List Variable :=
  match s.visible.filter (·.ty.canServe wanted) with
  | [] => s.visible
  | found => found

theorem descend_eq_ok {s : Scope} (h : s.complexity + 1 < sizeLimit) :
    s.descend = .ok s.deeper := by
  simp [descend, sizeAdd_eq_ok h, deeper, Except.map]

end Scope
end JavaSynth
