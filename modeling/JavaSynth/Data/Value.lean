import JavaSynth.Decimal.Double

set_option autoImplicit false

/-!
# Plain data

The values that a settings file or a manifest is read into and written from. An object keeps its
pairs in order and may name a key twice. `unreadable` stands for a well-formed token that denotes
no value, such as a number out of range: harmless where it is skipped, refused where it is used.
-/
namespace JavaSynth

inductive Value where
  | null
  | boolean (value : Bool)
  | integer (value : Int)
  | float (value : Double)
  | string (value : String)
  | array (items : List Value)
  | object (pairs : List (String × Value))
  | unreadable
  deriving Inhabited

namespace Value

def get? (key : String) : Value → Option Value
  | object pairs => (pairs.find? (·.1 == key)).map (·.2)
  | _ => none

/-- A size: an integer from zero to `2 ^ 64 - 1`. -/
def asSize? : Value → Option Nat
  | integer (.ofNat n) => if n < UInt64.size then some n else none
  | _ => none

/-- A real: an integer stands for the real nearest to it. -/
def asReal? : Value → Option Double
  | float x => some x
  | integer n => some (.ofFloat (Float.ofInt n))
  | _ => none

def asBoolean? : Value → Option Bool
  | boolean b => some b
  | _ => none

def asString? : Value → Option String
  | string s => some s
  | _ => none

end Value

/-- What formats disagree about when a record is read from a value. -/
structure Dialect where
  /-- Items of an array beyond the fields of the record are skipped and not refused. -/
  skipsExtraItems : Bool
  /-- The value says nothing, so that it may stand under the name of a kind. -/
  isNothing : Value → Bool

end JavaSynth
