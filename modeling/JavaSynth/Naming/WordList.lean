import JavaSynth.Files.Store
import JavaSynth.Text.Blank

set_option autoImplicit false

/-!
# Word lists

A word is made of lower-case ASCII letters. A list is read a line at a time: blanks around a line
are dropped, and so is every line that is no word.
-/
namespace JavaSynth

def isWordLetter (c : Char) : Bool := 'a' ≤ c && c ≤ 'z'

def isWord (s : String) : Bool := !s.toList.isEmpty && s.toList.all isWordLetter

inductive WordListError where
  | unreadable (path : String) (cause : FileError)
  | noUsableWords (path : String)

namespace WordListError

def message : WordListError → String
  | unreadable path cause => "failed to read word list " ++ path ++ ": " ++ cause.message
  | noUsableWords path => "word list " ++ path ++ " has no usable words"

end WordListError

namespace WordList

def ofLines (lines : List (List Char)) : List String :=
  (lines.map fun line => String.ofList (Text.trim line)).filter isWord

def ofText (text : String) : List String := ofLines (Text.lines text.toList)

/-- The words of a file, of which there is at least one. -/
def load {m : Type → Type} [Monad m] [FileStore m] (path : String) :
    ExceptT WordListError m (List String) := do
  let text ← (FileStore.readText path).adapt (.unreadable path)
  let words := ofText text
  if words.isEmpty then throw (.noUsableWords path) else pure words

end WordList
end JavaSynth
