import JavaSynth.Decimal.Shortest

set_option autoImplicit false

/-!
# Writing reals

A notation says how the shortest decimal of a double is laid out. The program has two: one for
messages and one for data.
-/
namespace JavaSynth.Decimal

structure Notation where
  tie : Tie
  /-- The least and the greatest power of ten of a first digit that is written positionally;
  `none` is no limit. -/
  positional : Option (Int × Int)
  /-- A whole number written positionally gets `.0`. -/
  keepsPoint : Bool
  notANumber : String
  infinity : String
  negativeInfinity : String

namespace Notation

/-- Messages: positional throughout, and a whole number without a point. -/
def message : Notation :=
  { tie := .up
    positional := none
    keepsPoint := false
    notANumber := "NaN"
    infinity := "inf"
    negativeInfinity := "-inf" }

/-- Data: positional from `0.00001` to below `10 ^ 16`, with a digit after the point; what is no
finite number is `null`. -/
def data : Notation :=
  { tie := .toEven
    positional := some (-5, 15)
    keepsPoint := true
    notANumber := "null"
    infinity := "null"
    negativeInfinity := "null" }

def zeros (n : Nat) : String := String.ofList (List.replicate n '0')

/-- Digits with the point after the first `point` of them, which may lie outside them. -/
def positionalText (n : Notation) (digits : String) (point : Int) : String :=
  let count := digits.length
  match point with
  | .ofNat 0 => "0." ++ digits
  | .negSucc k => "0." ++ zeros (k + 1) ++ digits
  | .ofNat p =>
    if p < count then
      String.ofList (digits.toList.take p) ++ "." ++ String.ofList (digits.toList.drop p)
    else digits ++ zeros (p - count) ++ (if n.keepsPoint then ".0" else "")

/-- One digit, the rest after a point, and a signed power of ten. -/
def exponentText (digits : String) (power : Int) : String :=
  let first := String.ofList (digits.toList.take 1)
  let rest := String.ofList (digits.toList.drop 1)
  first ++ (if rest.isEmpty then "" else "." ++ rest) ++ "e" ++
    (if power < 0 then "-" else "+") ++ toString power.natAbs

def decimalText (n : Notation) (d : Numeral) : String :=
  let digits := toString d.digits
  let point := d.exponent + digits.length
  match n.positional with
  | some (least, greatest) =>
    if least ≤ point - 1 ∧ point - 1 ≤ greatest then n.positionalText digits point
    else exponentText digits (point - 1)
  | none => n.positionalText digits point

/-- The text of a double. Zero keeps its sign. -/
def text (n : Notation) (x : Double) : String :=
  if x.isNaN then n.notANumber
  else if x.isInfinite then if x.isNegative then n.negativeInfinity else n.infinity
  else
    let sign := if x.isNegative then "-" else ""
    if x.isZero then sign ++ "0" ++ (if n.keepsPoint then ".0" else "")
    else sign ++ n.decimalText (shortest n.tie (.ofDouble x))

end Notation
end JavaSynth.Decimal
