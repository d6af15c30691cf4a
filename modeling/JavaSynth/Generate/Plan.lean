import JavaSynth.Naming.CamelCase
import JavaSynth.Settings.Basic
import JavaSynth.Syntax.Program
import JavaSynth.Universe

set_option autoImplicit false

/-!
# Plans

The declarations of a program without bodies. All class names are known before the first member is
planned, so a member may refer to any class. A name that is still taken after a number of draws
leaves out what it was for.
-/
namespace JavaSynth

structure Plan where
  classes : List ClassDecl
  types : Universe

namespace Plan

/-- The name of the entry point, which no planned method has. -/
def entryPointName : String := "main"

def nameAttempts : Nat := 32

/-- The bytes that a class name takes in a list, its characters apart. -/
def nameBytes : Nat := 24

/-- The bytes that a parameter takes in a list. -/
def parameterBytes : Nat := 48

/-- The greatest number of thrown types that are tried. -/
def maxThrown : Nat := 8

variable {σ : Type} [Source σ]

def namer (s : Settings) : Namer :=
  { words := s.words, approximateLength := s.approximateNameLength }

def freshName (draw : Gen σ String) (taken : String → Bool) : Gen σ (Option String) :=
  Gen.firstAccepted draw (!taken ·) nameAttempts

def addClassName (s : Settings) (names : List String) : Gen σ (List String) := do
  match ← freshName (namer s).upperCamel names.contains with
  | some name => pure (names ++ [name])
  | none => pure names

def addParameter (s : Settings) (types : Universe) (params : List Binding) :
    Gen σ (List Binding) := do
  match ← freshName (namer s).lowerCamel fun n => params.any (·.name == n) with
  | some name => do
    let ty ← types.pickFieldType s.arrayTypePercentage
    pure (params ++ [{ name := name, ty := ty }])
  | none => pure params

/-- Adds type names as long as a coin says so, at most `coins` of them, and none twice. -/
def addThrown (s : Settings) : Nat → List String → Gen σ (List String)
  | 0, thrown => pure thrown
  | coins + 1, thrown => do
    if ← Gen.coin s.thrownTypeProbability then
      let name ← (namer s).upperCamel
      addThrown s coins (if thrown.contains name then thrown else thrown ++ [name])
    else pure thrown

def thrownTypes (s : Settings) : Gen σ (List String) := addThrown s maxThrown []

def addField (s : Settings) (types : Universe) (c : ClassDecl) : Gen σ ClassDecl := do
  match ← freshName (namer s).lowerCamel fun n => (c.field? n).isSome with
  | some name => do
    let ty ← types.pickFieldType s.arrayTypePercentage
    pure { c with fields := c.fields ++ [{ name := name, ty := ty }] }
  | none => pure c

def addMethod (s : Settings) (types : Universe) (c : ClassDecl) : Gen σ ClassDecl := do
  match ← freshName (namer s).lowerCamel fun n =>
      n == entryPointName || (c.method? n).isSome with
  | some name => do
    let returns ← types.pickReturnType s.arrayTypePercentage
    let count ← Gen.upTo s.maxParameters
    Gen.ofExcept (checkRoom parameterBytes count)
    let params ← Gen.iterate (addParameter s types) count []
    let thrown ← thrownTypes s
    pure { c with methods := c.methods ++ [{ name, returns, params, thrown }] }
  | none => pure c

def addMember (s : Settings) (types : Universe) (c : ClassDecl) : Gen σ ClassDecl := do
  if ← Gen.coin s.fieldToMethodRatio then addField s types c else addMethod s types c

def planClass (s : Settings) (types : Universe) (name : String) : Gen σ ClassDecl := do
  let count ← Gen.upTo s.maxTypeMembers
  Gen.iterate (addMember s types) count { name }

def draw (s : Settings) : Gen σ Plan := do
  let count ← Gen.fromOneTo s.maxTypes
  Gen.ofExcept (checkRoom nameBytes count)
  let names ← Gen.iterate (addClassName s) count []
  let types := Universe.ofNames names
  let classes ← Gen.forEach (planClass s types) names
  pure { classes, types }

end Plan
end JavaSynth
