import JavaSynth.Data.Json.Reader

set_option autoImplicit false

/-!
# The letters of TOML

Blanks, line ends and comments, the four kinds of string, and keys. Each reader takes the front of
a text and gives what it found with the rest.
-/
namespace JavaSynth.Toml

def isBlank (c : Char) : Bool := c == ' ' || c == '\t'

/-- A character that may stand in a comment or, unless it is special there, in a string. -/
def isText (c : Char) : Bool := c == '\t' || (' ' ≤ c && c != '\x7f')

def skipBlanks (cs : List Char) : List Char := cs.dropWhile isBlank

def newline? : List Char → Option (List Char)
  | '\n' :: rest | '\r' :: '\n' :: rest => some rest
  | _ => none

/-- What follows blanks, a comment if there is one, and the end of the line or of the text. -/
def lineEnd? (cs : List Char) : Option (List Char) :=
  let cs := match skipBlanks cs with
    | '#' :: rest => rest.dropWhile isText
    | cs => cs
  match cs with
  | [] => some []
  | cs => newline? cs

/-- Skips blanks, line ends and comments, which may stand between the items of an array. -/
def skipFiller : Bool → List Char → List Char
  | _, '\n' :: rest => skipFiller false rest
  | _, '\r' :: '\n' :: rest => skipFiller false rest
  | inComment, c :: rest =>
    if inComment && isText c then skipFiller true rest
    else if !inComment && isBlank c then skipFiller false rest
    else if !inComment && c == '#' then skipFiller true rest
    else c :: rest
  | _, [] => []

def simpleEscape? : Char → Option Char
  | 'b' => some '\x08'
  | 't' => some '\t'
  | 'n' => some '\n'
  | 'f' => some '\x0c'
  | 'r' => some '\r'
  | '"' => some '"'
  | '\\' => some '\\'
  | _ => none

def numberedChar? (digits : List Char) : Option Char := do
  let n ← Json.hexNumber? digits
  if n < 0xD800 ∨ (0xDFFF < n ∧ n < 0x110000) then some (Char.ofNat n) else none

/-- A string in quotes up to its end; the characters so far are kept in reverse. -/
def basicBody : List Char → List Char → Option (String × List Char)
  | '"' :: rest, seen => some (String.ofList seen.reverse, rest)
  | '\\' :: 'u' :: a :: b :: c :: d :: rest, seen =>
    match numberedChar? [a, b, c, d] with
    | some x => basicBody rest (x :: seen)
    | none => none
  | '\\' :: 'U' :: a :: b :: c :: d :: e :: f :: g :: h :: rest, seen =>
    match numberedChar? [a, b, c, d, e, f, g, h] with
    | some x => basicBody rest (x :: seen)
    | none => none
  | '\\' :: e :: rest, seen =>
    match simpleEscape? e with
    | some x => basicBody rest (x :: seen)
    | none => none
  | c :: rest, seen => if isText c then basicBody rest (c :: seen) else none
  | [], _ => none

/-- The end of a string in three quotes: of up to five quotes in a row the last three. -/
def tripleEnd (quote : Char) (seen rest : List Char) : String × List Char :=
  let extra := min 2 (rest.takeWhile (· == quote)).length
  (String.ofList (seen.reverse ++ List.replicate extra quote), rest.drop extra)

/-- Only blanks stand before the next line end. -/
def isLineEndAhead (cs : List Char) : Bool := (newline? (skipBlanks cs)).isSome

/-- A string in three quotes up to its end. After a backslash that ends a line, blanks and line ends
are skipped. -/
def multilineBasicBody : Bool → List Char → List Char → Option (String × List Char)
  | _, '"' :: '"' :: '"' :: rest, seen => some (tripleEnd '"' seen rest)
  | skipping, '\r' :: '\n' :: rest, seen =>
    multilineBasicBody skipping rest (if skipping then seen else '\n' :: seen)
  | skipping, '\n' :: rest, seen =>
    multilineBasicBody skipping rest (if skipping then seen else '\n' :: seen)
  | _, '\\' :: 'u' :: a :: b :: c :: d :: rest, seen =>
    match numberedChar? [a, b, c, d] with
    | some x => multilineBasicBody false rest (x :: seen)
    | none => none
  | _, '\\' :: 'U' :: a :: b :: c :: d :: e :: f :: g :: h :: rest, seen =>
    match numberedChar? [a, b, c, d, e, f, g, h] with
    | some x => multilineBasicBody false rest (x :: seen)
    | none => none
  | _, '\\' :: e :: rest, seen =>
    match simpleEscape? e with
    | some x => multilineBasicBody false rest (x :: seen)
    | none => if isLineEndAhead (e :: rest) then multilineBasicBody true (e :: rest) seen else none
  | skipping, c :: rest, seen =>
    if skipping && isBlank c then multilineBasicBody true rest seen
    else if isText c then multilineBasicBody false rest (c :: seen)
    else none
  | _, [], _ => none

/-- A string in apostrophes up to its end, where nothing is escaped. -/
def literalBody : List Char → List Char → Option (String × List Char)
  | '\'' :: rest, seen => some (String.ofList seen.reverse, rest)
  | c :: rest, seen => if isText c then literalBody rest (c :: seen) else none
  | [], _ => none

def multilineLiteralBody : List Char → List Char → Option (String × List Char)
  | '\'' :: '\'' :: '\'' :: rest, seen => some (tripleEnd '\'' seen rest)
  | '\r' :: '\n' :: rest, seen | '\n' :: rest, seen => multilineLiteralBody rest ('\n' :: seen)
  | c :: rest, seen => if isText c then multilineLiteralBody rest (c :: seen) else none
  | [], _ => none

/-- A line end that opens a string in three quotes is not part of it. -/
def skipFirstNewline (cs : List Char) : List Char := (newline? cs).getD cs

def string? : List Char → Option (String × List Char)
  | '"' :: '"' :: '"' :: rest => multilineBasicBody false (skipFirstNewline rest) []
  | '"' :: rest => basicBody rest []
  | '\'' :: '\'' :: '\'' :: rest => multilineLiteralBody (skipFirstNewline rest) []
  | '\'' :: rest => literalBody rest []
  | _ => none

def isKeyChar (c : Char) : Bool :=
  c.isAlphanum || c == '_' || c == '-'

/-- One part of a key: a string on one line, or a bare word. -/
def keyPart? : List Char → Option (String × List Char)
  | '"' :: rest => basicBody rest []
  | '\'' :: rest => literalBody rest []
  | cs =>
    match cs.span isKeyChar with
    | ([], _) => none
    | (word, rest) => some (String.ofList word, rest)

/-- Nested arrays and tables, and the parts of a key, are fewer than this. -/
def nestingLimit : Nat := 80

/-- The parts of a dotted key, of which there are at most `limit`. -/
def keyParts? : Nat → List Char → Option (List String × List Char)
  | 0, _ => none
  | limit + 1, cs => do
    let (part, rest) ← keyPart? (skipBlanks cs)
    match skipBlanks rest with
    | '.' :: rest => do
      let (parts, rest) ← keyParts? limit rest
      some (part :: parts, rest)
    | rest => some ([part], rest)

def key? (cs : List Char) : Option (List String × List Char) := keyParts? (nestingLimit - 1) cs

end JavaSynth.Toml
