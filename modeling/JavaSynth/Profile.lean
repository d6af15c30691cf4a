import JavaSynth.Data.Toml.Reader
import JavaSynth.Files.Store
import JavaSynth.Settings.Codec

set_option autoImplicit false

/-!
# Profiles

Named settings. Where a profile says nothing, the default holds. A profile is built in or stands in
a file, and its name tells which: the name of a file has a slash or ends in `.toml`.
-/
namespace JavaSynth

inductive ProfileError where
  | unknown (name : String) (available : List String)
  | unreadable (path : String) (cause : FileError)
  | malformed (name : String)

namespace ProfileError

/-- The report on a malformed profile closes with a line end of its own. -/
def message : ProfileError → String
  | unknown name available =>
    "unknown profile '" ++ name ++ "' (available: " ++ ", ".intercalate available ++ ")"
  | unreadable path cause => "failed to read profile " ++ path ++ ": " ++ cause.message
  | malformed name => "failed to parse profile '" ++ name ++ "': TOML parse error\n"

end ProfileError

namespace Profile

/-- A handful of classes, quick to generate and easy to read. -/
def small : Settings := { maxTypes := 5, maxTypeMembers := 10, maxStatementsPerBlock := 15 }

/-- Fewer but larger classes with long bodies, and no nested blocks or early returns. -/
def wide : Settings :=
  { fieldToMethodRatio := 0.2
    approximateNameLength := 25
    maxTypeMembers := 50
    maxTypes := 20
    maxStatementsPerBlock := 15
    statementWeights :=
      [(0.05, .empty), (0.25, .declaration), (0.4, .expression), (0.15, .conditional),
        (0.1, .loop)] }

def builtIn : List (String × Settings) := [("default", {}), ("small", small), ("wide", wide)]

def available : List String := builtIn.map (·.1)

def find? (name : String) : Option Settings := (builtIn.find? (·.1 == name)).map (·.2)

def parse (name text : String) : Except ProfileError Settings :=
  match (Toml.read text).bind (Settings.ofValue? Toml.dialect) with
  | some s => .ok s
  | none => .error (.malformed name)

def isPath (name : String) : Bool := name.toList.contains '/' || ".toml".toList.isSuffixOf name.toList

def load {m : Type → Type} [Monad m] [FileStore m] (name : String) : ExceptT ProfileError m Settings :=
  if isPath name then do
    let text ← (FileStore.readText name).adapt (.unreadable name)
    ExceptT.mk (pure (parse name text))
  else
    match find? name with
    | some s => pure s
    | none => throw (.unknown name available)

end Profile
end JavaSynth
