import JavaSynth.Generate.Plan
import JavaSynth.Generate.Statement
import JavaSynth.Settings.Validation

set_option autoImplicit false

/-!
# Programs at random

A program is planned and then filled with bodies, class by class. After each class a draw decides
whether it gets the entry point, so that every class is as likely to get it as another.
-/
namespace JavaSynth

namespace Synthesis

/-- The complexity that the body of the entry point starts at. -/
def entryPointComplexity : Nat := 2

/-- The parameter of the entry point, which its body does not see. -/
def entryPointParam : Binding :=
  { name := "args", ty := .array (.named "java.lang.String") 1 }

variable {σ : Type} [Source σ]

def fillMethod (x : StmtContext) (c : ClassDecl) (m : Method) : Gen σ Method := do
  let body ← x.block (.ofMethod c m.params m.returns)
  pure { m with body := some body }

def fillClass (x : StmtContext) (c : ClassDecl) : Gen σ ClassDecl := do
  let methods ← Gen.forEach (fillMethod x c) c.methods
  pure { c with methods }

/-- The static `main` of a class, which reaches no member of it. -/
def entryPoint (x : StmtContext) (c : ClassDecl) : Gen σ Method := do
  let thrown ← Plan.thrownTypes x.settings
  let body ← x.block (.ofStatic c .void entryPointComplexity)
  pure
    { name := Plan.entryPointName
      returns := .void
      params := [entryPointParam]
      thrown
      isStatic := true
      body := some body }

/-- Fills classes, of which `remaining` are still to be asked for the entry point while `wanted`
holds. Each is asked with a draw among those that remain. -/
def fillClassesBy (draw : Nat → Gen σ Nat) (x : StmtContext) (wanted : Bool) (remaining : Nat) :
    List ClassDecl → Gen σ (List ClassDecl)
  | [] => pure []
  | c :: rest => do
    let filled ← fillClass x c
    if wanted then
      let drawn ← draw remaining
      let remaining ← Gen.ofExcept (sizeSub .classesLeft remaining 1)
      if drawn = 0 then
        let main ← entryPoint x c
        let others ← fillClassesBy draw x false remaining rest
        pure ({ filled with methods := filled.methods ++ [main] } :: others)
      else
        let others ← fillClassesBy draw x true remaining rest
        pure (filled :: others)
    else
      let others ← fillClassesBy draw x false remaining rest
      pure (filled :: others)

def fillClasses (x : StmtContext) (wanted : Bool) (remaining : Nat) (classes : List ClassDecl) :
    Gen σ (List ClassDecl) :=
  fillClassesBy Gen.index x wanted remaining classes

def run (s : Settings) (kinds : Weighted Float StmtKind) : Gen σ Program := do
  let plan ← Plan.draw s
  let x : StmtContext := { settings := s, kinds, types := plan.types, classes := plan.classes }
  let classes ← fillClasses x s.entryPoint plan.classes.length plan.classes
  pure { classes }

end Synthesis

/-- A program for valid settings. Settings are checked before anything is drawn. -/
def synthesize {σ : Type} [Source σ] (s : Settings) : Except SettingsError (Gen σ Program) := do
  s.validate
  let kinds ← s.statementChoice
  .ok (Synthesis.run s kinds)

end JavaSynth
