import JavaSynth.CommandLine.Help
import JavaSynth.Draw.Stream
import JavaSynth.Generate.Program
import JavaSynth.Manifest
import JavaSynth.Naming.WordList
import JavaSynth.Profile
import JavaSynth.Render

set_option autoImplicit false

/-!
# Runs of the command

A run reads a profile and perhaps a word list, generates a program from a seed, writes it to a file
or prints it, and may write a manifest. It stops at the first failure, and what was written before
stays. The program comes from the settings alone: options take the place of what the profile says.
-/
namespace JavaSynth.CommandLine

/-- Where a command runs: its files and its standard output. -/
class Host (m : Type → Type) extends FileStore m where
  print : String → m (Except FileError Unit)

inductive Failure where
  | outputExists (path : String)
  | profile (cause : ProfileError)
  | words (cause : WordListError)
  | settings (cause : SettingsError)
  | fault (cause : Fault)
  | programNotWritten (cause : FileError)
  | manifestNotWritten (cause : FileError)

namespace Failure

def message : Failure → String
  | outputExists path => "error: output file already exists: " ++ path
  | profile cause => "error: " ++ cause.message
  | words cause => "error: " ++ cause.message
  | settings cause => "error: invalid settings: " ++ cause.message
  | fault _ => "error: generation stopped"
  | programNotWritten cause => "error: failed to write program: " ++ cause.message
  | manifestNotWritten cause => "error: failed to write manifest: " ++ cause.message

end Failure

structure Summary where
  seed : UInt64
  profile : String
  classCount : Nat
  methodCount : Nat

def Summary.message (s : Summary) : String :=
  "reforest: seed " ++ toString s.seed.toNat ++ ", profile " ++ s.profile ++ ", " ++
    toString s.classCount ++ " classes, " ++ toString s.methodCount ++ " methods"

inductive Ending where
  | success (s : Summary)
  | helped
  | failure (cause : Failure)
  | misuse

namespace Ending

def code : Ending → Nat
  | success _ | helped => 0
  | failure (.fault _) => 101
  | failure _ => 1
  | misuse => 2

def message? : Ending → Option String
  | success s => some s.message
  | helped => none
  | failure cause => some cause.message
  | misuse => some usage

end Ending

def programOf (s : Settings) (seed : UInt64) : Except Failure Program :=
  match synthesize s with
  | .error e => .error (.settings e)
  | .ok generate =>
    match generate (WordStream.ofSeed seed) with
    | .ok (p, _) => .ok p
    | .error e => .error (.fault e)

variable {m : Type → Type} [Monad m] [Host m]

/-- The output is a new file. -/
def checkOutput (o : Options) : ExceptT Failure m Unit :=
  match o.output with
  | none => pure ()
  | some path => do
    if ← (FileStore.isThere path : m Bool) then throw (.outputExists path)

def settingsOf (o : Options) : ExceptT Failure m Settings := do
  let s := o.apply (← (Profile.load o.profile).adapt .profile)
  match o.words with
  | none => pure s
  | some path => do
    let words ← (WordList.load path).adapt .words
    pure { s with words }

def deliverProgram (o : Options) (p : Program) : ExceptT Failure m Unit :=
  let written : ExceptT FileError m Unit := match o.output with
    | some path => ExceptT.mk (FileStore.write path p.render.toUTF8)
    | none => ExceptT.mk (Host.print p.render)
  written.adapt .programNotWritten

def deliverManifest (o : Options) (manifest : Manifest) : ExceptT Failure m Unit :=
  match o.manifest with
  | none => pure ()
  | some path =>
    (ExceptT.mk (FileStore.write path manifest.write.toUTF8)).adapt .manifestNotWritten

/-- Without a seed among the options, the time gives one. -/
def seedOf (o : Options) (now : Moment) : UInt64 := o.seed.getD now.total.toUInt64

def generate (now : Moment) (o : Options) : ExceptT Failure m Summary := do
  let seed := seedOf o now
  checkOutput o
  let settings ← settingsOf o
  let p ← ExceptT.mk (pure (programOf settings seed))
  deliverProgram o p
  deliverManifest o (.ofRun seed o.profile settings p now)
  pure
    { seed
      profile := o.profile
      classCount := p.classCount
      methodCount := p.methodCount }

def run (now : Moment) (args : List String) : m Ending :=
  match request args with
  | .misuse => pure .misuse
  | .help => do
    let _ ← Host.print helpText
    pure .helped
  | .generate o => do
    match ← (generate now o).run with
    | .ok s => pure (.success s)
    | .error e => pure (.failure e)

end JavaSynth.CommandLine
