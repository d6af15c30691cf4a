import JavaSynth.CommandLine.Options

set_option autoImplicit false

/-!
# Help

The text that tells what the command does and which options it has.
-/
namespace JavaSynth.CommandLine

namespace Flag

def placeholder (f : Flag) : String :=
  String.ofList (f.name.toList.map fun c => if c == '-' then '_' else c.toUpper)

def form (f : Flag) : String :=
  match f.effect with
  | .switch _ => "--" ++ f.name
  | .value _ => "--" ++ f.name ++ " <" ++ f.placeholder ++ ">"

def help (f : Flag) : String := "      " ++ f.form ++ "\n          " ++ f.about ++ "\n"

end Flag

def usage : String := "Usage: reforest [OPTIONS]"

def helpText : String :=
  "Generate random, well-typed Java programs\n\n" ++ usage ++ "\n\nOptions:\n" ++
    String.join (flags.map Flag.help) ++ "  -h, --help\n          Print help\n"

end JavaSynth.CommandLine
