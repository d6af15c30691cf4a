import JavaSynth.Data.Value

set_option autoImplicit false

/-!
# Reading JSON

`Json.read` accepts one value with blanks around it. An integer of 64 bits, signed or not, is read
exactly. Every other number is its first digits, as many as fit 64 bits, scaled by a power of ten
in floating point; one that overflows is unreadable, and so is a string whose escapes name half a
character.
-/
namespace JavaSynth.Json

def isBlank (c : Char) : Bool := c == ' ' || c == '\n' || c == '\t' || c == '\r'

def skipBlanks (cs : List Char) : List Char := cs.dropWhile isBlank

def hexDigit? (c : Char) : Option Nat :=
  if c.isDigit then some (c.toNat - '0'.toNat)
  else if 'a' ≤ c ∧ c ≤ 'f' then some (c.toNat - 'a'.toNat + 10)
  else if 'A' ≤ c ∧ c ≤ 'F' then some (c.toNat - 'A'.toNat + 10)
  else none

/-- The number that hexadecimal digits write, most significant first. -/
def hexNumber? (cs : List Char) : Option Nat :=
  cs.foldlM (fun n c => (hexDigit? c).map (16 * n + ·)) 0

def isHighHalf (n : Nat) : Bool := 0xD800 ≤ n && n < 0xDC00

def isLowHalf (n : Nat) : Bool := 0xDC00 ≤ n && n < 0xE000

def joinHalves (high low : Nat) : Char :=
  Char.ofNat (0x10000 + (high - 0xD800) * 0x400 + (low - 0xDC00))

def simpleEscape? : Char → Option Char
  | '"' => some '"'
  | '\\' => some '\\'
  | '/' => some '/'
  | 'b' => some '\x08'
  | 'f' => some '\x0c'
  | 'n' => some '\n'
  | 'r' => some '\r'
  | 't' => some '\t'
  | _ => none

/-- A step of a string: a character, or an escaped 16-bit unit, which may be half of one. -/
inductive Piece where
  | char (c : Char)
  | unit (n : Nat)

/-- The pieces of a string up to its closing quote, and the text after it. The pieces so far are
kept in reverse. -/
def pieces : List Char → List Piece → Option (List Piece × List Char)
  | '"' :: rest, seen => some (seen.reverse, rest)
  | '\\' :: 'u' :: a :: b :: c :: d :: rest, seen =>
    match hexNumber? [a, b, c, d] with
    | some n => pieces rest (.unit n :: seen)
    | none => none
  | '\\' :: e :: rest, seen =>
    match simpleEscape? e with
    | some c => pieces rest (.char c :: seen)
    | none => none
  | c :: rest, seen => if c < ' ' then none else pieces rest (.char c :: seen)
  | [], _ => none

/-- The characters that pieces make, in reverse order of `made`; a half on its own makes none. -/
def join : List Piece → List Char → Option (List Char)
  | [], made => some made.reverse
  | .char c :: rest, made => join rest (c :: made)
  | .unit high :: .unit low :: rest, made =>
    if isHighHalf high && isLowHalf low then join rest (joinHalves high low :: made)
    else if isHighHalf high || isLowHalf high then none
    else join (.unit low :: rest) (Char.ofNat high :: made)
  | .unit n :: rest, made =>
    if isHighHalf n || isLowHalf n then none else join rest (Char.ofNat n :: made)

/-- What a string holds, if its escapes make whole characters, and the text after its closing
quote; `none` where it is malformed. -/
def stringBody (cs : List Char) : Option (Option String × List Char) :=
  (pieces cs []).map fun (found, rest) => ((join found []).map String.ofList, rest)

/-- Decimal digits gathered into a 64-bit significand; `dropped` counts those that did not fit. -/
structure Significand where
  value : Nat := 0
  kept : Nat := 0
  dropped : Nat := 0

/-- Once a digit does not fit, all later ones of its run are dropped. -/
def Significand.push (s : Significand) (c : Char) : Significand :=
  let next := 10 * s.value + (c.toNat - '0'.toNat)
  if s.dropped = 0 ∧ next < UInt64.size then { s with value := next, kept := s.kept + 1 }
  else { s with dropped := s.dropped + 1 }

def Significand.pushAll (s : Significand) (digits : List Char) : Significand :=
  digits.foldl Significand.push s

/-- `10 ^ n` rounded to the nearest real. -/
def pow10 (n : Nat) : Float := Float.ofScientific 1 false n

/-- `x / 10 ^ n`, in steps of the largest power of ten that is finite. -/
def scaleDown (x : Float) (n : Nat) : Float :=
  if n ≤ 308 then x / pow10 n
  else if x == 0 then x
  else scaleDown (x / pow10 308) (n - 308)
termination_by n

/-- `m * 10 ^ e`, unless it overflows. -/
def scale? (m : Nat) (e : Int) : Option Float :=
  let x := Float.ofNat m
  match e with
  | .ofNat n =>
    if n ≤ 308 then
      let y := x * pow10 n
      if y.isInf then none else some y
    else if m = 0 then some x else none
  | .negSucc n => some (scaleDown x (n + 1))

/-- The parts of a number: its sign, the digits before and after the point, and its exponent. -/
structure NumberText where
  negative : Bool
  whole : List Char
  fraction : Option (List Char)
  exponent : Option Int

def digitsValue (digits : List Char) : Nat :=
  digits.foldl (fun n c => 10 * n + (c.toNat - '0'.toNat)) 0

def NumberText.integer? (t : NumberText) : Option Int :=
  match t.fraction, t.exponent with
  | none, none =>
    let n := digitsValue t.whole
    if t.negative then if 0 < n ∧ n ≤ UInt64.size / 2 then some (-n) else none
    else if n < UInt64.size then some n else none
  | _, _ => none

def NumberText.real? (t : NumberText) : Option Float :=
  let front := ({} : Significand).pushAll t.whole
  let all := ({ value := front.value } : Significand).pushAll (t.fraction.getD [])
  let magnitude := scale? all.value (front.dropped - all.kept + t.exponent.getD 0)
  if t.negative then magnitude.map (-·) else magnitude

def NumberText.toValue (t : NumberText) : Value :=
  match t.integer? with
  | some n => .integer n
  | none =>
    match t.real? with
    | some x => .float (.ofFloat x)
    | none => .unreadable

def spanDigits (cs : List Char) : List Char × List Char := cs.span Char.isDigit

def someDigits? (cs : List Char) : Option (List Char × List Char) :=
  match spanDigits cs with
  | ([], _) => none
  | found => some found

def fraction? : List Char → Option (Option (List Char) × List Char)
  | '.' :: rest => (someDigits? rest).map fun (digits, rest') => (some digits, rest')
  | cs => some (none, cs)

def exponentSign : List Char → Int × List Char
  | '-' :: rest => (-1, rest)
  | '+' :: rest => (1, rest)
  | cs => (1, cs)

def exponent? : List Char → Option (Option Int × List Char)
  | [] => some (none, [])
  | c :: rest =>
    if c == 'e' || c == 'E' then
      let (sign, rest') := exponentSign rest
      (someDigits? rest').map fun (digits, rest'') => (some (sign * digitsValue digits), rest'')
    else some (none, c :: rest)

/-- The digits before the point start with a zero only when it stands alone. -/
def whole? (cs : List Char) : Option (List Char × List Char) := do
  let (digits, rest) ← someDigits? cs
  if digits.head? == some '0' && digits.length ≠ 1 then none else some (digits, rest)

def number? (cs : List Char) : Option (Value × List Char) := do
  let (negative, cs) := match cs with
    | '-' :: rest => (true, rest)
    | _ => (false, cs)
  let (whole, cs) ← whole? cs
  let (fraction, cs) ← fraction? cs
  let (exponent, cs) ← exponent? cs
  some (NumberText.toValue { negative, whole, fraction, exponent }, cs)

def word? (word : String) (value : Value) (cs : List Char) : Option (Value × List Char) :=
  let expected := word.toList
  if cs.take expected.length == expected then some (value, cs.drop expected.length) else none

/-- An object with a key that is not a string of whole characters cannot be used. -/
def ofPairs (pairs : List (Option String × Value)) : Value :=
  match pairs.mapM fun (key, value) => key.map (·, value) with
  | some pairs => .object pairs
  | none => .unreadable

mutual

/-- A value from the front of a text, its blanks skipped. -/
def value? : Nat → List Char → Option (Value × List Char)
  | 0, _ => none
  | fuel + 1, cs =>
    match skipBlanks cs with
    | '\x7b' :: rest =>
      match skipBlanks rest with
      | '\x7d' :: rest => some (.object [], rest)
      | rest => (pairs? fuel rest).map fun (pairs, rest) => (ofPairs pairs, rest)
    | '[' :: rest =>
      match skipBlanks rest with
      | ']' :: rest => some (.array [], rest)
      | rest => (items? fuel rest).map fun (items, rest) => (.array items, rest)
    | '"' :: rest =>
      (stringBody rest).map fun (text, rest) =>
        ((text.map Value.string).getD .unreadable, rest)
    | 't' :: rest => word? "rue" (.boolean true) rest
    | 'f' :: rest => word? "alse" (.boolean false) rest
    | 'n' :: rest => word? "ull" .null rest
    | cs => number? cs

def items? : Nat → List Char → Option (List Value × List Char)
  | 0, _ => none
  | fuel + 1, cs => do
    let (first, rest) ← value? fuel cs
    match skipBlanks rest with
    | ',' :: rest => (items? fuel rest).map fun (items, rest) => (first :: items, rest)
    | ']' :: rest => some ([first], rest)
    | _ => none

def pairs? : Nat → List Char → Option (List (Option String × Value) × List Char)
  | 0, _ => none
  | fuel + 1, cs =>
    match skipBlanks cs with
    | '"' :: rest => do
      let (key, rest) ← stringBody rest
      match skipBlanks rest with
      | ':' :: rest =>
        let (value, rest) ← value? fuel rest
        match skipBlanks rest with
        | ',' :: rest =>
          (pairs? fuel rest).map fun (pairs, rest) => ((key, value) :: pairs, rest)
        | '\x7d' :: rest => some ([(key, value)], rest)
        | _ => none
      | _ => none
    | _ => none

end

/-- The one value that a text holds. Each step of the reader passes a character, so the length
of the text bounds their number. -/
def read (text : String) : Option Value := do
  let cs := text.toList
  let (value, rest) ← value? (2 * cs.length + 1) cs
  if (skipBlanks rest).isEmpty then some value else none

/-- In JSON `null` says nothing. -/
def dialect : Dialect :=
  { skipsExtraItems := false
    isNothing := fun
      | .null => true
      | _ => false }

end JavaSynth.Json
