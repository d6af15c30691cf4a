set_option autoImplicit false

/-!
# Reading reals

The double nearest to a decimal. Powers beyond the range of doubles are settled without computing
them.
-/
namespace JavaSynth.Decimal

/-- The double nearest to `m * 10 ^ e`, which is infinite where that is out of range. -/
def toFloat (m : Nat) (e : Int) : Float :=
  if m = 0 then 0
  else
    let point := e + (toString m).length
    if 400 < point then 1 / 0
    else if point < -400 then 0
    else
      match e with
      | .ofNat k => Float.ofScientific m false k
      | .negSucc k => Float.ofScientific m true (k + 1)

def ofDigits (digits : List Char) : Nat :=
  digits.foldl (fun n c => 10 * n + (c.toNat - '0'.toNat)) 0

end JavaSynth.Decimal
