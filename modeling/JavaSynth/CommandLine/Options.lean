import JavaSynth.CommandLine.Number
import JavaSynth.Settings.Basic

set_option autoImplicit false

/-!
# Options

What the arguments of the command ask for. An option is `--name value` or `--name=value`, and a
switch is `--name`. Each stands at most once, in any order, and there are no other arguments. The
first argument that is wrong, or that asks for help, settles the matter.
-/
namespace JavaSynth.CommandLine

structure Options where
  seed : Option UInt64 := none
  profile : String := "default"
  words : Option String := none
  output : Option String := none
  manifest : Option String := none
  fieldToMethodRatio : Option Double := none
  arrayTypePercentage : Option Double := none
  approximateNameLength : Option Nat := none
  maxTypes : Option Nat := none
  maxTypeMembers : Option Nat := none
  maxParameters : Option Nat := none
  maxStatements : Option Nat := none
  noEntryPoint : Bool := false

namespace Options

/-- The settings of a profile with those that are given in its place. -/
def apply (o : Options) (s : Settings) : Settings :=
  { s with
    fieldToMethodRatio := o.fieldToMethodRatio.getD s.fieldToMethodRatio
    arrayTypePercentage := o.arrayTypePercentage.getD s.arrayTypePercentage
    approximateNameLength := o.approximateNameLength.getD s.approximateNameLength
    maxTypes := o.maxTypes.getD s.maxTypes
    maxTypeMembers := o.maxTypeMembers.getD s.maxTypeMembers
    maxParameters := o.maxParameters.getD s.maxParameters
    maxStatementsPerBlock := o.maxStatements.getD s.maxStatementsPerBlock
    entryPoint := s.entryPoint && !o.noEntryPoint }

end Options

inductive Effect where
  | switch (turnOn : Options → Options)
  /-- Takes a value, which may be refused. -/
  | value (take : String → Options → Option Options)

structure Flag where
  name : String
  about : String
  effect : Effect

namespace Flag

def size (name about : String) (set : Options → Nat → Options) : Flag :=
  { name, about, effect := .value fun text o => (sizeOf? text).map (set o) }

def real (name about : String) (set : Options → Double → Options) : Flag :=
  { name, about, effect := .value fun text o => (realOf? text).map (set o) }

/-- An option for a path, which is not empty. -/
def path (name about : String) (set : Options → String → Options) : Flag :=
  { name, about, effect := .value fun text o => if text.isEmpty then none else some (set o text) }

end Flag

def flags : List Flag :=
  [.size "seed" "Random seed for reproducibility" (fun o n => { o with seed := some n.toUInt64 }),
    { name := "profile"
      about := "Generation profile name, or path to a TOML profile [default: default]"
      effect := .value fun text o => some { o with profile := text } },
    .path "words" "Word list file, one word per line" (fun o p => { o with words := some p }),
    .path "output" "Write the program to this file instead of stdout (must not exist)"
      (fun o p => { o with output := some p }),
    .path "manifest" "Write a JSON manifest of the run to this file"
      (fun o p => { o with manifest := some p }),
    .real "field-to-method-ratio" "Probability that a class member is a field"
      (fun o x => { o with fieldToMethodRatio := some x }),
    .real "array-type-percentage" "Probability that a declared type is an array"
      (fun o x => { o with arrayTypePercentage := some x }),
    .size "approx-name-length" "Upper bound of generated identifier lengths"
      (fun o n => { o with approximateNameLength := some n }),
    .size "max-types" "Maximum number of classes" (fun o n => { o with maxTypes := some n }),
    .size "max-type-members" "Maximum number of members per class"
      (fun o n => { o with maxTypeMembers := some n }),
    .size "max-parameters" "Maximum number of parameters per method"
      (fun o n => { o with maxParameters := some n }),
    .size "max-statements" "Maximum number of statements per block"
      (fun o n => { o with maxStatements := some n }),
    { name := "no-entry-point"
      about := "Do not add a `main` method"
      effect := .switch fun o => { o with noEntryPoint := true } }]

def effectOf? (name : String) : Option Effect := (flags.find? (·.name == name)).map (·.effect)

inductive Request where
  | generate (o : Options)
  | help
  | misuse

namespace Request

/-- The name of an option and the value attached to it with an equals sign. -/
def splitValue (cs : List Char) : String × Option String :=
  match cs.span (· != '=') with
  | (name, '=' :: value) => (String.ofList name, some (String.ofList value))
  | (name, _) => (String.ofList name, none)

/-- An argument that may be the value of the option before it. -/
def isValue (arg : String) : Bool :=
  match arg.toList with
  | '-' :: _ :: _ => false
  | _ => true

/-- Goes through arguments. `seen` are the names of the options so far. -/
def ofArgs : List String → List String → Options → Request
  | [], _, o => .generate o
  | arg :: rest, seen, o =>
    match arg.toList with
    | ['-', '-'] => if rest.isEmpty then .generate o else .misuse
    | '-' :: '-' :: body =>
      let (name, attached) := splitValue body
      if name = "help" then if attached.isNone then .help else .misuse
      else if seen.contains name then .misuse
      else
        match effectOf? name, attached, rest with
        | some (.switch turnOn), none, rest => ofArgs rest (name :: seen) (turnOn o)
        | some (.value take), some text, rest =>
          match take text o with
          | some o => ofArgs rest (name :: seen) o
          | none => .misuse
        | some (.value take), none, text :: rest =>
          if isValue text then
            match take text o with
            | some o => ofArgs rest (name :: seen) o
            | none => .misuse
          else .misuse
        | _, _, _ => .misuse
    | '-' :: 'h' :: _ => .help
    | _ => .misuse

end Request

def request (args : List String) : Request := Request.ofArgs args [] {}

end JavaSynth.CommandLine
