import Std.Time.DateTime.Timestamp
import JavaSynth.CommandLine.Run

set_option autoImplicit false

/-!
# The command

Runs on the files and the standard output of the system. Messages go to standard error.
-/
namespace JavaSynth.CommandLine

/-- The number of an error of the system. Some calls give it as a negative one. -/
def errorNumber (code : UInt32) : Nat :=
  if code < 0x80000000 then code.toNat else (0 - code).toNat

def causeOf (e : IO.Error) : FileError :=
  match e with
  | .noFileOrDirectory _ _ _ => .notFound
  | .permissionDenied _ code _ | .inappropriateType _ code _ | .invalidArgument _ code _ =>
    match errorNumber code with
    | 13 => .denied
    | 20 => .notDirectory
    | 21 => .isDirectory
    | 36 => .nameTooLong
    | 40 => .tooManyLinks
    | _ => .other (toString e)
  | e => .other (toString e)

def attempted {α : Type} (action : IO α) : IO (Except FileError α) := do
  try
    return .ok (← action)
  catch e =>
    return .error (causeOf e)

/-- A path can be opened, or something other than its absence prevents that. -/
def isThereOnDisk (path : String) : IO Bool := do
  match ← attempted (IO.FS.Handle.mk path .read) with
  | .ok _ | .error .denied | .error (.other _) => return true
  | .error _ => return false

instance : Host IO where
  isThere := isThereOnDisk
  read path := attempted (IO.FS.readBinFile path)
  write path content := attempted (IO.FS.writeBinFile path content)
  print text := attempted (IO.print text)

def now : IO Moment := do
  let t ← Std.Time.Timestamp.now
  let n := t.toNanosecondsSinceUnixEpoch.val.toNat
  return { seconds := n / Moment.second, nanoseconds := n % Moment.second }

end JavaSynth.CommandLine

open JavaSynth.CommandLine in
def main (args : List String) : IO UInt32 := do
  let ending ← run (← now) args
  if let some message := ending.message? then IO.eprintln message
  return ending.code.toUInt32
