import JavaSynth.Draw.Source

set_option autoImplicit false

/-!
# Weighted choice

Entries with weights divide the interval from zero to the total weight, in order, into pieces as
long as the weights. A draw falls into one piece. Weights are any numbers that can be added and
compared, so the same choice serves for floating-point and for exact weights.
-/
namespace JavaSynth

class Weight (W : Type) where
  zero : W
  add : W → W → W
  lt : W → W → Bool
  isFinite : W → Bool

instance : Weight Float where
  zero := 0
  add := (· + ·)
  lt x y := decide (x < y)
  isFinite := Float.isFinite

instance : Weight Rat where
  zero := 0
  add := (· + ·)
  lt x y := decide (x < y)
  isFinite _ := true

inductive WeightError (W α : Type) where
  | invalid (item : α) (weight : W)
  | nothingToChoose (total : W)
  | notFinite (total : W)

/-- The choice among entries of positive weight. Each entry but the first keeps the sum of the
weights before it, which is where its piece starts. -/
structure Weighted (W α : Type) where
  first : α
  later : List (W × α)
  total : W

namespace Weighted

variable {W α : Type} [Weight W]

def isInvalid (w : W) : Bool := !Weight.isFinite w || Weight.lt w Weight.zero

/-- The starts of the pieces of positive weight, and the sum of all weights, given the sum of the
weights before. -/
def starts : List (W × α) → W → Except (WeightError W α) (List (W × α) × W)
  | [], total => .ok ([], total)
  | (w, item) :: rest, total =>
    if isInvalid w then .error (.invalid item w)
    else if Weight.lt Weight.zero w then do
      let (later, sum) ← starts rest (Weight.add total w)
      .ok ((total, item) :: later, sum)
    else starts rest total

def ofEntries (entries : List (W × α)) : Except (WeightError W α) (Weighted W α) := do
  match ← starts entries Weight.zero with
  | ([], total) => .error (.nothingToChoose total)
  | ((_, first) :: later, total) =>
    if !Weight.isFinite total then .error (.notFinite total)
    else .ok { first, later, total }

def items (c : Weighted W α) : List α := c.first :: c.later.map (·.2)

/-- The item whose piece holds `draw`: the last one that does not start beyond it. -/
def choose (c : Weighted W α) (draw : W) : α :=
  (((c.later.takeWhile fun (start, _) => !Weight.lt draw start).getLast?).map (·.2)).getD c.first

end Weighted

def Weighted.draw {σ α : Type} [Source σ] (c : Weighted Float α) : Gen σ α := do
  let d ← Gen.real c.total
  pure (c.choose d)

end JavaSynth
