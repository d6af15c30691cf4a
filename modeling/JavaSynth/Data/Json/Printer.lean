import JavaSynth.Data.Value
import JavaSynth.Decimal.Notation

set_option autoImplicit false

/-!
# Writing JSON

`Json.write` puts each item and each pair on a line of its own, two spaces deeper than the bracket
that holds it. What is empty stays on one line. In a string only quotes, backslashes and control
characters are escaped.
-/
namespace JavaSynth.Json

def hexDigit (n : Nat) : Char := (Nat.digitChar n)

def charInString (c : Char) : List Char :=
  match c with
  | '"' => ['\\', '"']
  | '\\' => ['\\', '\\']
  | '\x08' => ['\\', 'b']
  | '\t' => ['\\', 't']
  | '\n' => ['\\', 'n']
  | '\x0c' => ['\\', 'f']
  | '\r' => ['\\', 'r']
  | c =>
    if c < ' ' then ['\\', 'u', '0', '0', hexDigit (c.toNat / 16), hexDigit (c.toNat % 16)]
    else [c]

def quoted (s : String) : List Char := '"' :: (s.toList.flatMap charInString ++ ['"'])

def newLine (level : Nat) : List Char := '\n' :: List.replicate (2 * level) ' '

mutual

/-- The text of a value whose first line starts at a level. -/
def chars : Value → Nat → List Char
  | .null, _ | .unreadable, _ => "null".toList
  | .boolean b, _ => (if b then "true" else "false").toList
  | .integer n, _ => (toString n).toList
  | .float x, _ => (Decimal.Notation.data.text x).toList
  | .string s, _ => quoted s
  | .array [], _ => "[]".toList
  | .array (item :: rest), level =>
    '[' :: newLine (level + 1) ++ chars item (level + 1) ++ moreItems rest (level + 1) ++
      newLine level ++ [']']
  | .object [], _ => "\x7b\x7d".toList
  | .object ((key, value) :: rest), level =>
    '\x7b' :: newLine (level + 1) ++ quoted key ++ ": ".toList ++ chars value (level + 1) ++
      morePairs rest (level + 1) ++ newLine level ++ ['\x7d']

def moreItems : List Value → Nat → List Char
  | [], _ => []
  | item :: rest, level => ',' :: newLine level ++ chars item level ++ moreItems rest level

def morePairs : List (String × Value) → Nat → List Char
  | [], _ => []
  | (key, value) :: rest, level =>
    ',' :: newLine level ++ quoted key ++ ": ".toList ++ chars value level ++ morePairs rest level

end

def write (v : Value) : String := String.ofList (chars v 0)

end JavaSynth.Json
