import JavaSynth.Syntax.Stmt

set_option autoImplicit false

/-!
# Declarations

A class lists its fields before its methods. A method has no body until one is generated.
Look-ups find the first declaration of a name.
-/
namespace JavaSynth

/-- A name with its type: a field, a parameter or a local variable. -/
structure Binding where
  name : String
  ty : Ty
  deriving DecidableEq

structure Method where
  name : String
  returns : Ty
  params : List Binding := []
  /-- Names of the thrown marker types, which are printed and never checked. -/
  thrown : List String := []
  isStatic : Bool := false
  body : Option (List Stmt) := none

structure ClassDecl where
  name : String
  fields : List Binding := []
  methods : List Method := []

structure Program where
  classes : List ClassDecl

namespace Method

def hasParam (m : Method) (name : String) : Bool :=
  m.params.any (·.name == name)

end Method

namespace ClassDecl

def reference (c : ClassDecl) : Ty := .named c.name

def field? (c : ClassDecl) (name : String) : Option Binding :=
  c.fields.find? (·.name == name)

def method? (c : ClassDecl) (name : String) : Option Method :=
  c.methods.find? (·.name == name)

/-- Only the entry point is static, so these are the methods an object answers to. -/
def instanceMethods (c : ClassDecl) : List Method :=
  c.methods.filter (!·.isStatic)

def find? (classes : List ClassDecl) (name : String) : Option ClassDecl :=
  classes.find? (·.name == name)

end ClassDecl

namespace Program

def class? (p : Program) (name : String) : Option ClassDecl :=
  ClassDecl.find? p.classes name

def classCount (p : Program) : Nat := p.classes.length

def methods (p : Program) : List (ClassDecl × Method) :=
  p.classes.flatMap fun c => c.methods.map fun m => (c, m)

def methodCount (p : Program) : Nat := p.methods.length

end Program
end JavaSynth
