import JavaSynth.Draw.Source
import JavaSynth.Syntax.Ty

set_option autoImplicit false

/-!
# The types in use

The types that declarations choose from. It starts with the primitives and grows by the classes
of the program. Only a method may be of type `void`.
-/
namespace JavaSynth

structure Universe where
  fieldTypes : List Ty
  returnTypes : List Ty

/-- The greatest number of dimensions that one draw gives. -/
def maxDims : Nat := 4

variable {σ : Type} [Source σ]

/-- `⌊√u⌋` for `u` from 1 to 24. -/
def rootOf (u : Nat) : Nat := if u < 4 then 1 else if u < 9 then 2 else if u < 16 then 3 else 4

/-- `5 - ⌊√u⌋`, where that is a size. -/
def dimsOf (u : Nat) : Except Fault Nat := sizeSub .drawnDims (maxDims + 1) (rootOf u)

/-- From one to four dimensions, of which fewer are likelier. -/
def arrayDims : Gen σ Nat := do
  let u ← Gen.shortIndex 24
  Gen.ofExcept (dimsOf (u + 1))

namespace Universe

def primitive : Universe :=
  { fieldTypes := [.int, .boolean], returnTypes := [.int, .boolean, .void] }

/-- Makes a class usable, once. -/
def register (u : Universe) (name : String) : Universe :=
  if u.fieldTypes.contains (.named name) then u
  else
    { fieldTypes := u.fieldTypes ++ [.named name]
      returnTypes := u.returnTypes ++ [.named name] }

def ofNames (names : List String) : Universe := names.foldl register primitive

def randomFieldType (u : Universe) : Gen σ Ty := Gen.pick u.fieldTypes

def randomReturnType (u : Universe) : Gen σ Ty := Gen.pick u.returnTypes

/-- The type made an array with the given probability; `void` never is. -/
def wrapped (arrayProbability : Double) (t : Ty) : Gen σ Ty :=
  if t.isVoid then pure t
  else do
    if ← Gen.coin arrayProbability then
      let dims ← arrayDims
      Gen.ofExcept (t.arrayOf? dims)
    else pure t

def pickFieldType (u : Universe) (arrayProbability : Double) : Gen σ Ty := do
  wrapped arrayProbability (← u.randomFieldType)

def pickReturnType (u : Universe) (arrayProbability : Double) : Gen σ Ty := do
  wrapped arrayProbability (← u.randomReturnType)

end Universe
end JavaSynth
