import JavaSynth.Data.Toml.Lexical
import JavaSynth.Decimal.Reading

set_option autoImplicit false

/-!
# Numbers, dates and words of TOML

A date or a time is tried before a number, and a real before an integer. What a reader leaves over
is for the caller to refuse.
-/
namespace JavaSynth.Toml

/-- Digits with single underscores between them. -/
def digitRun (isDigit : Char → Bool) : List Char → List Char × List Char
  | '_' :: c :: rest =>
    if isDigit c then
      let (digits, rest) := digitRun isDigit rest
      (c :: digits, rest)
    else ([], '_' :: c :: rest)
  | c :: rest =>
    if isDigit c then
      let (digits, rest) := digitRun isDigit rest
      (c :: digits, rest)
    else ([], c :: rest)
  | [] => ([], [])

def digits? (isDigit : Char → Bool) : List Char → Option (List Char × List Char)
  | c :: rest =>
    if isDigit c then
      let (digits, rest) := digitRun isDigit rest
      some (c :: digits, rest)
    else none
  | [] => none

/-- A sign, if there is one; it says whether the number is negative. -/
def sign : List Char → Bool × List Char
  | '-' :: rest => (true, rest)
  | '+' :: rest => (false, rest)
  | cs => (false, cs)

/-- The digits of a decimal integer: a zero alone, or digits that start with no zero. -/
def decimalDigits? : List Char → Option (List Char × List Char)
  | '0' :: rest => some (['0'], rest)
  | cs => digits? Char.isDigit cs

def exponent? : List Char → Option (Int × List Char)
  | c :: rest =>
    if c == 'e' || c == 'E' then do
      let (negative, rest) := sign rest
      let (digits, rest) ← digits? Char.isDigit rest
      let n : Int := Decimal.ofDigits digits
      some (if negative then -n else n, rest)
    else none
  | [] => none

def fraction? : List Char → Option (List Char × List Char)
  | '.' :: rest => digits? Char.isDigit rest
  | _ => none

/-- A real that reads as positive infinity is refused. -/
def ofReal (negative : Bool) (digits : List Char) (exponent : Int) : Option Value :=
  let x := Double.signed negative (.ofFloat (Decimal.toFloat (Decimal.ofDigits digits) exponent))
  if x = Double.infinity then none else some (.float x)

/-- A real has a fraction, an exponent, or both. -/
def real? (cs : List Char) : Option (Value × List Char) := do
  let (negative, cs) := sign cs
  let (whole, cs) ← decimalDigits? cs
  match fraction? cs with
  | some (fraction, cs) =>
    let (exponent, cs) := (exponent? cs).getD (0, cs)
    let v ← ofReal negative (whole ++ fraction) (exponent - fraction.length)
    some (v, cs)
  | none => do
    let (exponent, cs) ← exponent? cs
    let v ← ofReal negative whole exponent
    some (v, cs)

/-- `inf` or `nan`, with or without a sign. -/
def specialReal? (cs : List Char) : Option (Value × List Char) :=
  let (negative, cs) := sign cs
  match cs with
  | 'i' :: 'n' :: 'f' :: rest => some (.float (.signed negative .infinity), rest)
  | 'n' :: 'a' :: 'n' :: rest => some (.float (.signed negative .nan), rest)
  | _ => none

/-- Integers have 64 bits with a sign. -/
def ofInteger (n : Int) : Option Value :=
  if Int64.minValue.toInt ≤ n ∧ n ≤ Int64.maxValue.toInt then some (.integer n) else none

def isDigitOf (base : Nat) (c : Char) : Bool :=
  match Json.hexDigit? c with
  | some d => d < base
  | none => false

def inBase (base : Nat) (digits : List Char) : Nat :=
  digits.foldl (fun n c => base * n + (Json.hexDigit? c).getD 0) 0

def basedInteger? (base : Nat) (cs : List Char) : Option (Value × List Char) := do
  let (digits, rest) ← digits? (isDigitOf base) cs
  let v ← ofInteger (inBase base digits)
  some (v, rest)

def integer? : List Char → Option (Value × List Char)
  | '0' :: 'x' :: rest => basedInteger? 16 rest
  | '0' :: 'o' :: rest => basedInteger? 8 rest
  | '0' :: 'b' :: rest => basedInteger? 2 rest
  | cs => do
    let (negative, cs) := sign cs
    let (digits, rest) ← decimalDigits? cs
    let n : Int := Decimal.ofDigits digits
    let v ← ofInteger (if negative then -n else n)
    some (v, rest)

def fixedNumber? (count least greatest : Nat) (cs : List Char) : Option (Nat × List Char) :=
  let digits := cs.take count
  let n := Decimal.ofDigits digits
  if digits.length = count ∧ digits.all Char.isDigit ∧ least ≤ n ∧ n ≤ greatest then
    some (n, cs.drop count)
  else none

def daysIn (year month : Nat) : Nat :=
  if month = 2 then
    if year % 4 = 0 ∧ (year % 100 ≠ 0 ∨ year % 400 = 0) then 29 else 28
  else if month = 4 ∨ month = 6 ∨ month = 9 ∨ month = 11 then 30
  else 31

def char? (c : Char) : List Char → Option (List Char)
  | d :: rest => if c == d then some rest else none
  | [] => none

def date? (cs : List Char) : Option (List Char) := do
  let (year, cs) ← fixedNumber? 4 0 9999 cs
  let (month, cs) ← fixedNumber? 2 1 12 (← char? '-' cs)
  let (_, cs) ← fixedNumber? 2 1 (daysIn year month) (← char? '-' cs)
  some cs

def time? (cs : List Char) : Option (List Char) := do
  let (_, cs) ← fixedNumber? 2 0 23 cs
  let (_, cs) ← fixedNumber? 2 0 59 (← char? ':' cs)
  let (_, cs) ← fixedNumber? 2 0 60 (← char? ':' cs)
  match cs with
  | '.' :: c :: rest => if c.isDigit then some (rest.dropWhile Char.isDigit) else some cs
  | _ => some cs

def offset? : List Char → Option (List Char)
  | 'Z' :: rest | 'z' :: rest => some rest
  | '+' :: cs | '-' :: cs => do
    let (_, cs) ← fixedNumber? 2 0 23 cs
    let (_, cs) ← fixedNumber? 2 0 59 (← char? ':' cs)
    some cs
  | _ => none

def timeOfDay? : List Char → Option (List Char)
  | 'T' :: cs | 't' :: cs | ' ' :: cs => do
    let cs ← time? cs
    some ((offset? cs).getD cs)
  | _ => none

/-- A date or a time is an object of one pair, whose key is the key of no setting. -/
def moment : Value := .object [("$date", .null)]

def moment? (cs : List Char) : Option (Value × List Char) :=
  match date? cs with
  | some rest => some (moment, (timeOfDay? rest).getD rest)
  | none => (time? cs).map fun rest => (moment, rest)

def number? (cs : List Char) : Option (Value × List Char) :=
  moment? cs <|> real? cs <|> specialReal? cs <|> integer? cs

end JavaSynth.Toml
