set_option autoImplicit false

/-!
# Blanks

A blank is a character with the Unicode property White_Space.
-/
namespace JavaSynth.Text

def blanks : List Nat :=
  [0x09, 0x0A, 0x0B, 0x0C, 0x0D, 0x20, 0x85, 0xA0, 0x1680, 0x2000, 0x2001, 0x2002, 0x2003,
    0x2004, 0x2005, 0x2006, 0x2007, 0x2008, 0x2009, 0x200A, 0x2028, 0x2029, 0x202F, 0x205F,
    0x3000]

def isBlank (c : Char) : Bool := blanks.contains c.toNat

def trim (cs : List Char) : List Char :=
  ((cs.dropWhile isBlank).reverse.dropWhile isBlank).reverse

/-- The lines of a text. A line ends at a newline, and a carriage return before it is dropped;
the last line needs no end. -/
def lines (cs : List Char) : List (List Char) :=
  let pieces := cs.splitOn '\n'
  let ended := pieces.dropLast.map fun line =>
    if line.getLast? == some '\r' then line.dropLast else line
  match pieces.getLast? with
  | some [] | none => ended
  | some last => ended ++ [last]

end JavaSynth.Text
