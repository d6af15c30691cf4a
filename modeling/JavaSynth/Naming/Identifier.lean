import JavaSynth.Text.Letter

set_option autoImplicit false

/-!
# Identifiers

An identifier starts with a letter, `_` or `$`, goes on with these and numerals, and is not a
reserved word.
-/
namespace JavaSynth

/-- The reserved words, and the literals that cannot be identifiers. -/
def reservedWords : List String :=
  ["_", "abstract", "assert", "boolean", "break", "byte", "case", "catch", "char", "class",
    "const", "continue", "default", "do", "double", "else", "enum", "extends", "false", "final",
    "finally", "float", "for", "goto", "if", "implements", "import", "instanceof", "int",
    "interface", "long", "native", "new", "null", "package", "private", "protected", "public",
    "return", "short", "static", "strictfp", "super", "switch", "synchronized", "this", "throw",
    "throws", "transient", "true", "try", "void", "volatile", "while"]

namespace Identifier

def isStart (c : Char) : Bool := Text.isLetter c || c == '_' || c == '$'

def isPart (c : Char) : Bool := Text.isLetterOrNumeral c || c == '_' || c == '$'

/-- The characters of an identifier or a reserved word. -/
def isWord : List Char → Bool
  | [] => false
  | c :: rest => isStart c && rest.all isPart

def isValid (s : String) : Bool := isWord s.toList && !reservedWords.contains s

end Identifier
end JavaSynth
