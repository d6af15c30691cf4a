import JavaSynth.Draw.Source
import JavaSynth.Naming.Identifier
import JavaSynth.Text.UpperCase

set_option autoImplicit false

/-!
# Names in camel case

A name joins random words, each with a capital, until it reaches a random length. A type's name
starts with a capital and any other name with a word as it is. A name that is no identifier gets a
number.
-/
namespace JavaSynth

/-- What names are made of: words, and the greatest length that a name aims at. -/
structure Namer where
  words : List String
  approximateLength : Nat

def capitalized (word : String) : String :=
  match word.toList with
  | [] => ""
  | c :: rest => String.ofList (Text.upperCase c ++ rest)

namespace Namer

/-- Numbers appended to a name are below this one. -/
def suffixBound : Nat := 42

variable {σ : Type} [Source σ]

def targetLength (n : Namer) : Gen σ Nat := Gen.fromOneTo (max n.approximateLength 1)

def word (n : Namer) : Gen σ String := Gen.pick n.words

/-- Appends capitalized words until the name has `target` bytes, or an empty word is drawn. Each
word adds a byte or more, so `target` words are enough. -/
def extendTo (n : Namer) (target : Nat) : Nat → String → Gen σ String
  | 0, name => pure name
  | steps + 1, name =>
    if name.utf8ByteSize < target then do
      let w ← n.word
      if w.isEmpty then pure name else extendTo n target steps (name ++ capitalized w)
    else pure name

/-- The name itself, or the name with a number if it is no identifier. -/
def finish (name : String) : Gen σ String :=
  if Identifier.isValid name then pure name
  else do
    let suffix ← Gen.shortIndex suffixBound
    pure (name ++ toString suffix)

/-- A name such as `RiverStone`. -/
def upperCamel (n : Namer) : Gen σ String := do
  let target ← n.targetLength
  let name ← n.extendTo target target ""
  finish name

/-- A name such as `riverStone`. -/
def lowerCamel (n : Namer) : Gen σ String := do
  let target ← n.targetLength
  let first ← n.word
  let name ← n.extendTo target target first
  finish name

end Namer
end JavaSynth
