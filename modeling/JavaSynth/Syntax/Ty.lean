import JavaSynth.Fault

set_option autoImplicit false

/-!
# Types

A type is a primitive, a class by name, or an array. Arrays are flat: a declared array has at
least one dimension over an element that is neither an array nor `void`. `canServe` is the
relation the generators choose by: a value of the first type gives one of the second, either
directly or after indexing.
-/
namespace JavaSynth

inductive Ty where
  | int
  | boolean
  | void
  | named (name : String)
  | array (element : Ty) (dims : Nat)
  deriving DecidableEq, Inhabited

namespace Ty

def isVoid : Ty → Bool
  | void => true
  | _ => false

/-- The primitives that have values. -/
def isPrimitive : Ty → Bool
  | int | boolean => true
  | _ => false

def isNamed : Ty → Bool
  | named _ => true
  | _ => false

def isArray : Ty → Bool
  | array _ _ => true
  | _ => false

def dims : Ty → Nat
  | array _ d => d
  | _ => 0

/-- The innermost type, which is the type itself where there is no array. -/
def element : Ty → Ty
  | array e _ => e
  | t => t

/-- `n` more array dimensions; an array gains dimensions and does not nest. -/
def arrayOf (t : Ty) (n : Nat) : Ty :=
  if n = 0 then t else
    match t with
    | array e d => array e (d + n)
    | t => array t n

/-- `arrayOf` where it is defined: `void` has no array and the dimensions are a size. -/
def arrayOf? (t : Ty) (n : Nat) : Except Fault Ty :=
  if t.isVoid then .error .arrayOfVoid
  else if t.dims + n < sizeLimit then .ok (t.arrayOf n)
  else .error (.sizeOverflow .arrayDims)

/-- The type of an element after indexing once. -/
def component : Ty → Option Ty
  | array e d => some (if d = 1 then e else array e (d - 1))
  | _ => none

/-- `component` where the dimensions of an array may be zero, which has no predecessor. -/
def component? : Ty → Except Fault (Option Ty)
  | array _ 0 => .error (.sizeOverflow .componentDims)
  | t => .ok t.component

/-- Indexing a value of this type one or more times gives one of type `wanted`. -/
def indexesTo (t wanted : Ty) : Bool :=
  match t with
  | array e d => decide (e = wanted.element) && decide (wanted.dims < d)
  | _ => false

/-- A value of this type gives one of type `wanted`, directly or by indexing. -/
def canServe (t wanted : Ty) : Bool :=
  decide (t = wanted) || t.indexesTo wanted

def brackets (n : Nat) : List Char :=
  (List.replicate n ['[', ']']).flatten

def chars : Ty → List Char
  | int => "int".toList
  | boolean => "boolean".toList
  | void => "void".toList
  | named name => name.toList
  | array e d => e.chars ++ brackets d

def text (t : Ty) : String := String.ofList t.chars

end Ty
end JavaSynth
