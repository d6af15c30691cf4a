import JavaSynth.Decimal.Double

set_option autoImplicit false

/-!
# Shortest decimals

The fewest digits that read back as a given double, and of these the nearest to it. A finite
double is `m * 2 ^ q`; the reals that round to it form an interval around it. For one, two and more
digits, up to seventeen, the two neighbours of the value on that decimal grid are tested exactly,
and the first grid with a neighbour in the interval wins.
-/
namespace JavaSynth.Decimal

/-- The way a value half-way between two decimals goes. -/
inductive Tie where
  | up
  | toEven
  deriving DecidableEq

/-- `digits * 10 ^ exponent`. -/
structure Numeral where
  digits : Nat
  exponent : Int
  deriving DecidableEq

/-- A positive real as a quotient. -/
structure Ratio where
  num : Nat
  den : Nat

def Ratio.le (x y : Ratio) : Bool := x.num * y.den ≤ y.num * x.den

def Ratio.lt (x y : Ratio) : Bool := x.num * y.den < y.num * x.den

def Ratio.scaled (n base : Nat) (e : Int) : Ratio :=
  match e with
  | .ofNat k => ⟨n * Nat.pow base k, 1⟩
  | .negSucc k => ⟨n, Nat.pow base (k + 1)⟩

def Numeral.toRatio (d : Numeral) : Ratio := .scaled d.digits 10 d.exponent

/-- The parts of a positive finite double: it is `mantissa * 2 ^ exponent`, and `narrow` says that
its neighbour below is nearer than the one above. -/
structure Binary where
  mantissa : Nat
  exponent : Int
  narrow : Bool

def Binary.ofDouble (x : Double) : Binary :=
  if x.exponentField = 0 then ⟨x.fraction, -1074, false⟩
  else
    ⟨Double.fractions + x.fraction, (x.exponentField : Int) - 1075, x.fraction = 0 && 1 < x.exponentField⟩

namespace Binary

/-- The value in quarters of the last binary place. -/
def value (b : Binary) : Ratio := .scaled (4 * b.mantissa) 2 (b.exponent - 2)

def low (b : Binary) : Ratio :=
  .scaled (4 * b.mantissa - if b.narrow then 1 else 2) 2 (b.exponent - 2)

def high (b : Binary) : Ratio := .scaled (4 * b.mantissa + 2) 2 (b.exponent - 2)

/-- The real rounds to this double; the ends do when the mantissa is even. -/
def reads (b : Binary) (x : Ratio) : Bool :=
  if b.mantissa % 2 = 0 then b.low.le x && x.le b.high else b.low.lt x && x.lt b.high

end Binary

/-- The greatest `e` with `10 ^ e ≤ x`, sought upwards from a lower bound. -/
def magnitudeFrom (x : Ratio) : Nat → Int → Int
  | 0, e => e
  | steps + 1, e =>
    if (Ratio.scaled 1 10 (e + 1)).le x then magnitudeFrom x steps (e + 1) else e

/-- The greatest `e` with `10 ^ e ≤ x`. The binary magnitude gives it up to three. -/
def magnitude (x : Ratio) : Int :=
  let binary : Int := (x.num.log2 : Int) - x.den.log2 - 1
  magnitudeFrom x 4 ((binary * 30103).fdiv 100000 - 1)

/-- The whole number of steps `10 ^ exponent` in `x`. -/
def stepsBelow (x : Ratio) (exponent : Int) : Nat :=
  match exponent with
  | .ofNat k => x.num / (x.den * Nat.pow 10 k)
  | .negSucc k => x.num * Nat.pow 10 (k + 1) / x.den

/-- The nearer of two neighbours `d` and `d + 1` on the grid to the value between them. -/
def nearer (tie : Tie) (x : Ratio) (d : Nat) (exponent : Int) : Numeral :=
  let middle := Ratio.scaled (10 * d + 5) 10 (exponent - 1)
  let goesUp := middle.lt x ||
    (middle.le x && (match tie with
      | .up => true
      | .toEven => d % 2 = 1))
  ⟨if goesUp then d + 1 else d, exponent⟩

/-- The decimal on one grid that reads back, if there is one. -/
def onGrid (tie : Tie) (b : Binary) (exponent : Int) : Option Numeral :=
  let d := stepsBelow b.value exponent
  let below : Numeral := ⟨d, exponent⟩
  let above : Numeral := ⟨d + 1, exponent⟩
  match b.reads below.toRatio, b.reads above.toRatio with
  | true, true => some (nearer tie b.value d exponent)
  | true, false => some below
  | false, true => some above
  | false, false => none

/-- Tries the grid of `exponent` and then finer ones. -/
def search (tie : Tie) (b : Binary) : Nat → Int → Numeral
  | 0, exponent => ⟨stepsBelow b.value exponent, exponent⟩
  | grids + 1, exponent =>
    match onGrid tie b exponent with
    | some d => d
    | none => search tie b grids (exponent - 1)

def dropZeros : Nat → Numeral → Numeral
  | 0, d => d
  | steps + 1, d =>
    if d.digits % 10 = 0 ∧ d.digits ≠ 0 then dropZeros steps ⟨d.digits / 10, d.exponent + 1⟩
    else d

def shortest (tie : Tie) (b : Binary) : Numeral :=
  dropZeros 20 (search tie b 17 (magnitude b.value))

end JavaSynth.Decimal
