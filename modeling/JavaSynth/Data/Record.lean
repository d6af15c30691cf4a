import JavaSynth.Data.Value

set_option autoImplicit false

/-!
# Records as data

A record is written as an object of its fields and read back from an object, whose unknown keys
are skipped and whose known keys stand at most once, or from an array of the fields in order. A
field that is absent keeps the value it has in the record that reading starts from.
-/
namespace JavaSynth

/-- A named part of a record that can be written and read. -/
structure Field (S : Type) where
  name : String
  write : S → Value
  read : Dialect → Value → S → Option S

namespace Field

variable {S : Type}

def real (name : String) (get : S → Double) (set : S → Double → S) : Field S :=
  { name, write := fun s => .float (get s), read := fun _ v s => v.asReal?.map (set s) }

def size (name : String) (get : S → Nat) (set : S → Nat → S) : Field S :=
  { name, write := fun s => .integer (get s), read := fun _ v s => v.asSize?.map (set s) }

def boolean (name : String) (get : S → Bool) (set : S → Bool → S) : Field S :=
  { name, write := fun s => .boolean (get s), read := fun _ v s => v.asBoolean?.map (set s) }

def string (name : String) (get : S → String) (set : S → String → S) : Field S :=
  { name, write := fun s => .string (get s), read := fun _ v s => v.asString?.map (set s) }

/-- A part with a written form of its own. -/
def part {T : Type} (name : String) (get : S → T) (set : S → T → S) (toValue : T → Value)
    (ofValue? : Dialect → Value → Option T) : Field S :=
  { name, write := fun s => toValue (get s), read := fun d v s => (ofValue? d v).map (set s) }

end Field

namespace Record

variable {S : Type}

def toValue (fields : List (Field S)) (s : S) : Value :=
  .object (fields.map fun f => (f.name, f.write s))

/-- The record after the pairs of an object, and the names of the fields they set. -/
def readPairs (d : Dialect) (fields : List (Field S)) :
    List (String × Value) → List String → S → Option (List String × S)
  | [], seen, s => some (seen, s)
  | (key, value) :: rest, seen, s =>
    match fields.find? (·.name == key) with
    | none => readPairs d fields rest seen s
    | some f =>
      if seen.contains key then none
      else (f.read d value s).bind (readPairs d fields rest (key :: seen))

def readItems (d : Dialect) : List (Field S) → List Value → S → Option S
  | _, [], s => some s
  | [], _ :: _, s => if d.skipsExtraItems then some s else none
  | f :: fields, value :: rest, s => (f.read d value s).bind (readItems d fields rest)

/-- Reads a record whose absent fields stay as they are in `start`. -/
def ofValue? (d : Dialect) (fields : List (Field S)) (start : S) : Value → Option S
  | .object pairs => (readPairs d fields pairs [] start).map (·.2)
  | .array items => readItems d fields items start
  | _ => none

/-- Reads a record whose fields must all be there. -/
def ofWholeValue? (d : Dialect) (fields : List (Field S)) (start : S) : Value → Option S
  | .object pairs => do
    let (seen, s) ← readPairs d fields pairs [] start
    if seen.length = fields.length then some s else none
  | .array items => if fields.length ≤ items.length then readItems d fields items start else none
  | _ => none

def hasOnly (fields : List (Field S)) : Value → Bool
  | .object pairs => pairs.all fun (key, _) => fields.any (·.name == key)
  | _ => true

end Record
end JavaSynth
