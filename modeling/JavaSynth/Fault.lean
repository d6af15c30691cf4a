set_option autoImplicit false

/-!
# Faults

A computation on declarations or draws may stop without an answer. `Fault` lists why, and sizes
are the numbers below `sizeLimit`: a sum that leaves them, or a difference below zero, is a fault,
which names what the size was for. So is a list for which memory has no room; room is taken before
the first item is made.
-/
namespace JavaSynth

/-- What a sum or a difference of sizes is for. -/
inductive SizeUse where
  /-- The statements of a block, with one more for the value that it may return. -/
  | blockRoom
  /-- The complexity of a deeper scope. -/
  | complexity
  /-- The draws for which a location becomes the target of an assignment. -/
  | assignmentShare
  /-- The dimensions of an array of a type. -/
  | arrayDims
  /-- The dimensions that an index leaves. -/
  | componentDims
  /-- The dimensions of a declared array. -/
  | drawnDims
  /-- The classes that may still get the entry point. -/
  | classesLeft
  deriving DecidableEq

inductive Fault where
  | arrayOfVoid
  | sizeOverflow (use : SizeUse)
  | noRoom
  | emptyRange
  | badProbability
  | badBound
  deriving DecidableEq

/-- Sizes are machine words of 64 bits. -/
def sizeLimit : Nat := UInt64.size

def sizeAdd (use : SizeUse) (a b : Nat) : Except Fault Nat :=
  if a + b < sizeLimit then .ok (a + b) else .error (.sizeOverflow use)

def sizeSub (use : SizeUse) (a b : Nat) : Except Fault Nat :=
  if b ≤ a then .ok (a - b) else .error (.sizeOverflow use)

/-- Memory has fewer bytes than this. -/
def memoryLimit : Nat := UInt64.size / 2

/-- Memory has room for `count` items of `bytes` bytes each. -/
def checkRoom (bytes count : Nat) : Except Fault Unit :=
  if count * bytes < memoryLimit then .ok () else .error .noRoom

theorem sizeAdd_eq_ok {use : SizeUse} {a b : Nat} (h : a + b < sizeLimit) :
    sizeAdd use a b = .ok (a + b) :=
  if_pos h

theorem sizeSub_eq_ok {use : SizeUse} {a b : Nat} (h : b ≤ a) :
    sizeSub use a b = .ok (a - b) :=
  if_pos h

end JavaSynth
