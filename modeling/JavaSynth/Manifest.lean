import JavaSynth.Data.Json.Printer
import JavaSynth.Data.Json.Reader
import JavaSynth.Settings.Codec
import JavaSynth.Syntax.Program

set_option autoImplicit false

/-!
# Manifests

A manifest records a run, so that the same program can be generated again: the seed and the
settings, with some figures about what came of them. The words are not recorded.
-/
namespace JavaSynth

/-- A time, counted from the start of 1970. -/
structure Moment where
  seconds : Nat := 0
  nanoseconds : Nat := 0
  deriving DecidableEq

namespace Moment

def fields : List (Field Moment) :=
  [.size "secs_since_epoch" (·.seconds) (fun t n => { t with seconds := n }),
    .size "nanos_since_epoch" (·.nanoseconds) (fun t n => { t with nanoseconds := n })]

def toValue (t : Moment) : Value := Record.toValue fields t

def second : Nat := 1000000000

/-- Moments lie less than `2 ^ 63` seconds after the start. -/
def secondsLimit : Nat := UInt64.size / 2

/-- The moment that comes some seconds and some nanoseconds after the start. -/
def after? (seconds nanoseconds : Nat) : Option Moment :=
  let seconds := seconds + nanoseconds / second
  if seconds < secondsLimit then some { seconds, nanoseconds := nanoseconds % second } else none

/-- Reads a moment, which has no keys but its own. Its nanoseconds have 32 bits, and whole seconds
among them count as seconds. -/
def ofValue? (d : Dialect) (v : Value) : Option Moment := do
  let t ← Record.ofWholeValue? d fields {} v
  if Record.hasOnly fields v ∧ t.nanoseconds < UInt32.size then after? t.seconds t.nanoseconds
  else none

def total (t : Moment) : Nat := t.seconds * second + t.nanoseconds

end Moment

def generatorVersion : String := "0.1.0"

structure Manifest where
  seed : UInt64
  profile : String
  settings : Settings
  classCount : Nat
  methodCount : Nat
  generatedAt : Moment
  generatorVersion : String

namespace Manifest

def ofRun (seed : UInt64) (profile : String) (settings : Settings) (p : Program) (now : Moment) :
    Manifest :=
  { seed
    profile
    settings
    classCount := p.classCount
    methodCount := p.methodCount
    generatedAt := now
    generatorVersion := JavaSynth.generatorVersion }

def fields : List (Field Manifest) :=
  [.size "seed" (·.seed.toNat) (fun m n => { m with seed := n.toUInt64 }),
    .string "profile" (·.profile) (fun m s => { m with profile := s }),
    .part "settings" (·.settings) (fun m s => { m with settings := s }) Settings.toValue
      Settings.ofValue?,
    .size "class_count" (·.classCount) (fun m n => { m with classCount := n }),
    .size "method_count" (·.methodCount) (fun m n => { m with methodCount := n }),
    .part "generated_at" (·.generatedAt) (fun m t => { m with generatedAt := t }) Moment.toValue
      Moment.ofValue?,
    .string "generator_version" (·.generatorVersion) (fun m s => { m with generatorVersion := s })]

/-- The manifest that reading starts from; every field of it is replaced. -/
def blank : Manifest :=
  { seed := 0
    profile := ""
    settings := {}
    classCount := 0
    methodCount := 0
    generatedAt := {}
    generatorVersion := "" }

def toValue (m : Manifest) : Value := Record.toValue fields m

def ofValue? (d : Dialect) (v : Value) : Option Manifest := Record.ofWholeValue? d fields blank v

def write (m : Manifest) : String := Json.write m.toValue

def read (text : String) : Option Manifest := (Json.read text).bind (ofValue? Json.dialect)

end Manifest
end JavaSynth
