import JavaSynth.CommandLine.Run
import JavaSynth.Files.Table

set_option autoImplicit false

/-!
# Sessions

A session is a host that is all there: a table of files and the text printed so far.
-/
namespace JavaSynth.CommandLine

structure Session where
  files : Files := {}
  printed : String := ""

instance : Host (StateM Session) where
  isThere path := do return (← get).files.isThere path
  read path := do return (← get).files.read path
  write path content := fun s =>
    match s.files.write path content with
    | .ok files => (.ok (), { s with files })
    | .error e => (.error e, s)
  print text := fun s => (.ok (), { s with printed := s.printed ++ text })

end JavaSynth.CommandLine
