set_option autoImplicit false

/-!
# Doubles

A double is kept as its 64 bits. Arithmetic goes through `Float`, which knows a single value that
is not a number; the bits also know its sign.
-/
namespace JavaSynth

structure Double where
  bits : UInt64
  deriving DecidableEq, Inhabited

namespace Double

def toFloat (x : Double) : Float := Float.ofBits x.bits

def ofFloat (x : Float) : Double := ⟨x.toBits⟩

instance : OfScientific Double := ⟨fun m s e => ofFloat (OfScientific.ofScientific m s e)⟩

instance (n : Nat) : OfNat Double n := ⟨ofFloat (Float.ofNat n)⟩

def signBit : UInt64 := 0x8000000000000000

def isNegative (x : Double) : Bool := x.bits &&& signBit != 0

def negate (x : Double) : Double := ⟨x.bits ^^^ signBit⟩

def signed (negative : Bool) (x : Double) : Double := if negative then x.negate else x

def exponentField (x : Double) : Nat := (x.bits >>> 52).toNat % 2048

/-- The number of fractions, which have 52 bits. -/
def fractions : Nat := 4503599627370496

def fraction (x : Double) : Nat := x.bits.toNat % fractions

def isNaN (x : Double) : Bool := x.exponentField == 2047 && x.fraction != 0

def isInfinite (x : Double) : Bool := x.exponentField == 2047 && x.fraction == 0

def isZero (x : Double) : Bool := x.exponentField == 0 && x.fraction == 0

def nan : Double := ⟨0x7FF8000000000000⟩

def infinity : Double := ⟨0x7FF0000000000000⟩

end Double
end JavaSynth
