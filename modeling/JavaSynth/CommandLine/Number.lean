import JavaSynth.Decimal.Double
import JavaSynth.Decimal.Reading

set_option autoImplicit false

/-!
# Numbers as they are typed

A size is made of digits, and a plus sign may stand before them. A real may have a sign, a point
with digits on one side at least, and an exponent; it may also be an infinity or no number, spelled
in letters of either case.
-/
namespace JavaSynth.CommandLine

def isDigits (cs : List Char) : Bool := !cs.isEmpty && cs.all Char.isDigit

/-- A number below `2 ^ 64`. -/
def sizeOf? (text : String) : Option Nat :=
  let digits := match text.toList with
    | '+' :: rest => rest
    | cs => cs
  if isDigits digits && Decimal.ofDigits digits < UInt64.size then some (Decimal.ofDigits digits)
  else none

/-- A sign, if there is one; it says whether the number is negative. -/
def splitSign : List Char → Bool × List Char
  | '-' :: rest => (true, rest)
  | '+' :: rest => (false, rest)
  | cs => (false, cs)

/-- The power of ten that ends a number; without one it is zero. -/
def exponentOf? : List Char → Option Int
  | [] => some 0
  | mark :: rest =>
    let (negative, digits) := splitSign rest
    if (mark == 'e' || mark == 'E') && isDigits digits then
      let n : Int := Decimal.ofDigits digits
      some (if negative then -n else n)
    else none

/-- The digits after a point, if there is one, and what follows them. -/
def fractionOf : List Char → List Char × List Char
  | '.' :: rest => rest.span Char.isDigit
  | cs => ([], cs)

/-- A number without its sign. -/
def decimalOf? (cs : List Char) : Option Float := do
  let (whole, rest) := cs.span Char.isDigit
  let (fraction, rest) := fractionOf rest
  let exponent ← exponentOf? rest
  if (whole ++ fraction).isEmpty then none
  else some (Decimal.toFloat (Decimal.ofDigits (whole ++ fraction)) (exponent - fraction.length))

/-- An infinity or no number, without its sign. -/
def specialOf? (cs : List Char) : Option Double :=
  match String.ofList (cs.map Char.toLower) with
  | "inf" | "infinity" => some .infinity
  | "nan" => some .nan
  | _ => none

def realOf? (text : String) : Option Double :=
  let (negative, cs) := splitSign text.toList
  (specialOf? cs <|> (decimalOf? cs).map Double.ofFloat).map (.signed negative)

end JavaSynth.CommandLine
