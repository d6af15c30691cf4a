import JavaSynth.Data.Toml.Scalar
import JavaSynth.Data.Toml.Table

set_option autoImplicit false

/-!
# Reading TOML

`Toml.read` accepts a text of version 1.0: lines that are headers or pairs of a key and a value, with
comments and empty lines between them.
-/
namespace JavaSynth.Toml

def splitKey (parts : List String) : List String × String :=
  (parts.dropLast, parts.getLast?.getD "")

def ofInlinePairs (pairs : List (List String × Value)) : Option Value := do
  let entries ← pairs.foldlM (fun entries (parts, v) =>
    let (path, key) := splitKey parts
    Entries.addPair key v path entries) []
  some (.object (entriesToPairs entries))

mutual

/-- A value from the front of a text, with arrays and tables nested up to a depth. -/
def value? : Nat → Nat → List Char → Option (Value × List Char)
  | 0, _, _ => none
  | fuel + 1, depth, cs =>
    match cs with
    | '"' :: _ | '\'' :: _ => (string? cs).map fun (s, rest) => (.string s, rest)
    | '[' :: rest =>
      if depth = 0 then none
      else (items? fuel (depth - 1) rest).map fun (items, rest) => (.array items, rest)
    | '\x7b' :: rest =>
      if depth = 0 then none
      else
        match skipBlanks rest with
        | '\x7d' :: rest => some (.object [], rest)
        | rest => do
          let (pairs, rest) ← pairs? fuel (depth - 1) rest
          let v ← ofInlinePairs pairs
          some (v, rest)
    | 't' :: 'r' :: 'u' :: 'e' :: rest => some (.boolean true, rest)
    | 'f' :: 'a' :: 'l' :: 's' :: 'e' :: rest => some (.boolean false, rest)
    | cs => number? cs

/-- The items of an array up to its bracket; a comma may follow the last one. -/
def items? : Nat → Nat → List Char → Option (List Value × List Char)
  | 0, _, _ => none
  | fuel + 1, depth, cs =>
    match skipFiller false cs with
    | ']' :: rest => some ([], rest)
    | cs => do
      let (first, rest) ← value? fuel depth cs
      match skipFiller false rest with
      | ',' :: rest => (items? fuel depth rest).map fun (items, rest) => (first :: items, rest)
      | ']' :: rest => some ([first], rest)
      | _ => none

def pairs? : Nat → Nat → List Char → Option (List (List String × Value) × List Char)
  | 0, _, _ => none
  | fuel + 1, depth, cs => do
    let (parts, rest) ← key? cs
    let (v, rest) ← value? fuel depth (skipBlanks (← char? '=' rest))
    match skipBlanks rest with
    | ',' :: rest =>
      (pairs? fuel depth rest).map fun (pairs, rest) => ((parts, v) :: pairs, rest)
    | '\x7d' :: rest => some ([(parts, v)], rest)
    | _ => none

end

def header? (make : List String → String → Line) (close : List Char) (cs : List Char) :
    Option (Line × List Char) := do
  let (parts, rest) ← key? cs
  let rest ← close.foldlM (fun rest c => char? c rest) rest
  let rest ← lineEnd? rest
  let (path, key) := splitKey parts
  some (make path key, rest)

def pairLine? (cs : List Char) : Option (Line × List Char) := do
  let (parts, rest) ← key? cs
  let rest := skipBlanks (← char? '=' rest)
  let (v, rest) ← value? (2 * rest.length + 1) (nestingLimit - 1) rest
  let rest ← lineEnd? rest
  let (path, key) := splitKey parts
  some (.pair path key v, rest)

/-- The lines of a text; each takes a character or more. -/
def lines? : Nat → List Char → Option (List Line)
  | 0, _ => none
  | fuel + 1, cs =>
    match skipBlanks cs with
    | [] => some []
    | '#' :: rest => (lineEnd? ('#' :: rest)).bind (lines? fuel)
    | '\n' :: rest | '\r' :: '\n' :: rest => lines? fuel rest
    | '[' :: '[' :: rest => do
      let (line, rest) ← header? .element [']', ']'] rest
      (lines? fuel rest).map (line :: ·)
    | '[' :: rest => do
      let (line, rest) ← header? .table [']'] rest
      (lines? fuel rest).map (line :: ·)
    | cs => do
      let (line, rest) ← pairLine? cs
      (lines? fuel rest).map (line :: ·)

/-- What a text says. A byte order mark may stand before it. -/
def read (text : String) : Option Value := do
  let cs := match text.toList with
    | '\ufeff' :: rest => rest
    | cs => cs
  ofLines (← lines? (cs.length + 1) cs)

/-- In TOML an empty array or table says nothing. -/
def dialect : Dialect :=
  { skipsExtraItems := true
    isNothing := fun
      | .array [] | .object [] => true
      | _ => false }

end JavaSynth.Toml
