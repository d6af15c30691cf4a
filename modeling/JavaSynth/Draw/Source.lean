import JavaSynth.Decimal.Double
import JavaSynth.Fault

set_option autoImplicit false

/-!
# Random choices

A `Source` answers each kind of random choice with some value of its range, and nothing more is
said about it: what holds for every source holds for every random stream. A generator is a
computation that draws from a source and may stop with a fault.
-/
namespace JavaSynth

class Source (σ : Type) where
  /-- One of `n` numbers, drawn with a long word. -/
  index (n : Nat) (pos : 0 < n) : σ → Fin n × σ
  /-- One of `n` numbers, drawn with a short word. -/
  shortIndex (n : Nat) (pos : 0 < n) : σ → Fin n × σ
  int32 : σ → Int32 × σ
  /-- A real from zero up to, and not including, `bound`. -/
  real (bound : Float) (pos : 0 < bound) : σ → { r : Float // 0 ≤ r ∧ r < bound } × σ
  /-- `true` with the given probability. -/
  coin (probability : Float) : σ → Bool × σ
  coin_zero {p : Float} (s : σ) (h : ¬ 0 < p) : (coin p s).1 = false

/-- A computation that draws from a source. -/
abbrev Gen (σ α : Type) := StateT σ (Except Fault) α

namespace Gen

variable {σ α β : Type}

def fault (f : Fault) : Gen σ α := fun _ => .error f

/-- A result that draws nothing. -/
def ofExcept (r : Except Fault α) : Gen σ α := fun s => r.map (·, s)

/-- Draws until `accepts` holds, at most `attempts` times. -/
def firstAccepted (draw : Gen σ α) (accepts : α → Bool) : Nat → Gen σ (Option α)
  | 0 => pure none
  | attempts + 1 => do
    let a ← draw
    if accepts a then pure (some a) else firstAccepted draw accepts attempts

/-- `times` steps, each from the result of the one before. -/
def iterate (step : α → Gen σ α) : Nat → α → Gen σ α
  | 0, a => pure a
  | times + 1, a => do iterate step times (← step a)

/-- A result for each item, in order. -/
def forEach (f : α → Gen σ β) : List α → Gen σ (List β)
  | [] => pure []
  | a :: rest => do
    let b ← f a
    let bs ← forEach f rest
    pure (b :: bs)

variable [Source σ]

def index (n : Nat) : Gen σ Nat :=
  if h : 0 < n then fun s =>
    let (i, s) := Source.index n h s
    .ok (i.val, s)
  else fault .emptyRange

/-- A number below `n`, drawn with a short word. -/
def shortIndex (n : Nat) : Gen σ Nat :=
  if h : 0 < n then fun s =>
    let (i, s) := Source.shortIndex n h s
    .ok (i.val, s)
  else fault .emptyRange

def upTo (limit : Nat) : Gen σ Nat := index (limit + 1)

def fromOneTo (limit : Nat) : Gen σ Nat := do
  let i ← index limit
  pure (i + 1)

/-- One item of a list, each being as likely as another. -/
def pick (items : List α) : Gen σ α :=
  if h : 0 < items.length then fun s =>
    let (i, s) := Source.index items.length h s
    .ok (items.get i, s)
  else fault .emptyRange

def int32 : Gen σ Int := fun s =>
  let (i, s) := Source.int32 s
  .ok (i.toInt, s)

/-- A real from zero up to, and not including, `bound`. -/
def real (bound : Float) : Gen σ Float :=
  if h : 0 < bound then
    if bound.isFinite then fun s =>
      let (r, s) := Source.real bound h s
      .ok (r.val, s)
    else fault .badBound
  else fault .badBound

/-- `true` with probability `p`; certainty draws nothing. -/
def coin (p : Double) : Gen σ Bool :=
  if p.toFloat == 1 then pure true
  else if 0 ≤ p.toFloat ∧ p.toFloat < 1 then fun s => .ok (Source.coin p.toFloat s)
  else fault .badProbability

end Gen
end JavaSynth
