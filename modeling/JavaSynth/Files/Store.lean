set_option autoImplicit false

/-!
# File stores

A `FileStore` is a monad in which files are looked for, read and written by their paths. Each of
these may fail, and the texts of the failures are those of the operating system.
-/
namespace JavaSynth

inductive FileError where
  | notFound
  /-- The path leads through a file. -/
  | notDirectory
  | isDirectory
  | nameTooLong
  /-- The path leads through a link to itself, or through too many. -/
  | tooManyLinks
  | denied
  | zeroInPath
  | notText
  | other (text : String)

namespace FileError

def message : FileError → String
  | notFound => "No such file or directory (os error 2)"
  | notDirectory => "Not a directory (os error 20)"
  | isDirectory => "Is a directory (os error 21)"
  | nameTooLong => "File name too long (os error 36)"
  | tooManyLinks => "Too many levels of symbolic links (os error 40)"
  | denied => "Permission denied (os error 13)"
  | zeroInPath => "file name contained an unexpected NUL byte"
  | notText => "stream did not contain valid UTF-8"
  | other text => text

end FileError

class FileStore (m : Type → Type) where
  isThere : String → m Bool
  read : String → m (Except FileError ByteArray)
  /-- Makes a file, or gives a new content to the one that is there. -/
  write : String → ByteArray → m (Except FileError Unit)

namespace FileStore

def textOf (bytes : ByteArray) : Except FileError String :=
  match String.fromUTF8? bytes with
  | some text => .ok text
  | none => .error .notText

def readText {m : Type → Type} [Monad m] [FileStore m] (path : String) : ExceptT FileError m String :=
  do
    let bytes ← ExceptT.mk (read path)
    ExceptT.mk (pure (textOf bytes))

end FileStore
end JavaSynth
