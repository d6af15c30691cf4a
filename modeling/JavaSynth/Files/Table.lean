import JavaSynth.Files.Store

set_option autoImplicit false

/-!
# Tables of files

Files, directories and symbolic links, each under the names that lead to it from the root, and the
current directory, from which a relative path is followed. Every file has one name, and there are no
devices.
-/
namespace JavaSynth

/-- What may be done with a file, or in a directory. Names in a directory can be followed only where
it may be searched. -/
structure Files.Access where
  read : Bool := true
  write : Bool := true
  search : Bool := true

inductive Files.Entry where
  | file (content : ByteArray) (access : Access)
  | directory (access : Access)
  | link (path : List Char)

structure Files where
  entries : List (List String × Files.Entry) := []
  current : List String := []

namespace Files

def find? (files : Files) (names : List String) : Option Entry :=
  (files.entries.find? (·.1 == names)).map (·.2)

/-- What may be done in a directory, if it is one. The root is there without an entry. -/
def directory? (files : Files) (names : List String) : Option Access :=
  match files.find? names with
  | some (.directory access) => some access
  | _ => if names.isEmpty then some {} else none

/-- An entry with another content, if it is a file. -/
def Entry.withContent (content : ByteArray) : Entry → Entry
  | .file _ access => .file content access
  | .directory access => .directory access
  | .link path => .link path

/-- The table with a content under some names, in the file that is there or in a new one. -/
def put (files : Files) (names : List String) (content : ByteArray) : Files :=
  if (files.find? names).isSome then
    { files with
      entries := files.entries.map fun e =>
        if e.1 == names then (e.1, e.2.withContent content) else e }
  else { files with entries := files.entries ++ [(names, .file content {})] }

inductive Place where
  | file (names : List String) (content : ByteArray) (access : Access)
  | directory (names : List String)
  /-- Nothing yet, in a directory that is there. -/
  | vacant (names : List String)

def nameLimit : Nat := 255

/-- The length in bytes that a path stays below. -/
def pathLimit : Nat := 4096

/-- The number of links that are followed for one path. -/
def linkLimit : Nat := 40

def namesOf (path : List Char) : List String := (path.splitOn '/').map String.ofList

/-- Where the names of a path are followed from, given the directory that it is relative to. -/
def startOf (here : List String) (path : List Char) : List String :=
  if path.head? == some '/' then [] else here

/-- What one name of a path comes to. -/
inductive Step where
  /-- A directory, from which the rest of the path is followed. -/
  | onward (names : List String)
  /-- A link, which stands for another path. -/
  | through (path : List Char)
  /-- Something else, and there is no rest. -/
  | arrived (place : Place)

/-- What stands under some names, where `rest` is to follow. -/
def found (files : Files) (names rest : List String) : Except FileError Step :=
  match files.find? names, rest with
  | some (.directory _), _ => .ok (.onward names)
  | some (.link path), _ => .ok (.through path)
  | some (.file content access), [] => .ok (.arrived (.file names content access))
  | some (.file _ _), _ :: _ => .error .notDirectory
  | none, [] => .ok (.arrived (.vacant names))
  | none, _ :: _ => .error .notFound

/-- What a name comes to in a directory, where `rest` is to follow. An empty name and `.` stay
there, and `..` leads up, but not beyond the root. A path that ends in a slash asks for a directory,
and `creating` is to make a file, so then its last name is not even looked for. -/
def step (files : Files) (creating : Bool) (here : List String) (name : String)
    (rest : List String) : Except FileError Step :=
  if name.isEmpty then .ok (.onward here)
  else
    match files.directory? here with
    | none => .error .notFound
    | some access =>
      if !access.search then .error .denied
      else if name = "." then .ok (.onward here)
      else if name = ".." then .ok (.onward here.dropLast)
      else if creating && !rest.isEmpty && rest.all String.isEmpty then .error .isDirectory
      else if nameLimit < name.utf8ByteSize then .error .nameTooLong
      else files.found (here ++ [name]) rest

/-- Follows names from a directory. What a link stands for is followed by `jump`. -/
def walk (files : Files) (creating : Bool)
    (jump : List String → List String → Except FileError Place) :
    List String → List String → Except FileError Place
  | here, [] => .ok (.directory here)
  | here, name :: rest =>
    match files.step creating here name rest with
    | .error e => .error e
    | .ok (.onward names) => walk files creating jump names rest
    | .ok (.through path) => jump (startOf here path) (namesOf path ++ rest)
    | .ok (.arrived place) => .ok place

/-- Follows names, and no more than so many links. -/
def follow (files : Files) (creating : Bool) :
    Nat → List String → List String → Except FileError Place
  | 0 => files.walk creating fun _ _ => .error .tooManyLinks
  | links + 1 => files.walk creating (follow files creating links)

def checkPath (path : String) : Except FileError Unit :=
  if path.toList.contains '\x00' then .error .zeroInPath
  else if path.isEmpty then .error .notFound
  else if pathLimit ≤ path.utf8ByteSize then .error .nameTooLong
  else .ok ()

/-- Where a path leads. -/
def place (files : Files) (creating : Bool) (path : String) : Except FileError Place := do
  checkPath path
  files.follow creating linkLimit (startOf files.current path.toList) (namesOf path.toList)

def isThere (files : Files) (path : String) : Bool :=
  match files.place false path with
  | .ok (.file _ _ _) | .ok (.directory _) => true
  | _ => false

/-- The directory is there, and `right` is among what may be done in it. -/
def allows (files : Files) (directory : List String) (right : Access → Bool) : Bool :=
  (files.directory? directory).any right

def read (files : Files) (path : String) : Except FileError ByteArray := do
  match ← files.place false path with
  | .file _ content access => if access.read then .ok content else .error .denied
  | .directory names =>
    if files.allows names Access.read then .error .isDirectory else .error .denied
  | .vacant _ => .error .notFound

def write (files : Files) (path : String) (content : ByteArray) : Except FileError Files := do
  match ← files.place true path with
  | .file names _ access => if access.write then .ok (files.put names content) else .error .denied
  | .directory _ => .error .isDirectory
  | .vacant names =>
    if files.allows names.dropLast Access.write then .ok (files.put names content)
    else .error .denied

end Files
end JavaSynth
