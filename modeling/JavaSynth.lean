import JavaSynth.Render
import JavaSynth.Data.Json.Reader
import JavaSynth.Draw.Stream
import JavaSynth.Draw.Weighted
import JavaSynth.Naming.CamelCase
import JavaSynth.Naming.DefaultWords
import JavaSynth.Naming.WordList
import JavaSynth.Universe
import JavaSynth.Scope
import JavaSynth.Decimal.Notation
import JavaSynth.Decimal.Reading
import JavaSynth.Settings.Validation
import JavaSynth.Settings.Codec
import JavaSynth.Profile
import JavaSynth.Generate.Program
import JavaSynth.Manifest
import JavaSynth.CommandLine.Session
import JavaSynth.Main
import JavaSynth.Proofs.Typing.Program
import JavaSynth.Proofs.Typing.Locals
import JavaSynth.Proofs.Reading.Declaration
import JavaSynth.Proofs.Generate.Ending
import JavaSynth.Proofs.Generate.EntryPoint
import JavaSynth.Proofs.Shape.Targets
import JavaSynth.Proofs.Generate.Sizes
import JavaSynth.Proofs.Generate.Skeleton
import JavaSynth.Proofs.CommandLine.Stages
import JavaSynth.Proofs.CommandLine.Delivery
import JavaSynth.Proofs.CommandLine.Failure
import JavaSynth.Proofs.Shape.Depth
import JavaSynth.Proofs.Shape.Nesting
import JavaSynth.Proofs.Shape.Returns
import JavaSynth.Proofs.Naming.CamelCase
import JavaSynth.Proofs.Naming.Program
import JavaSynth.Proofs.Draw.Partition
import JavaSynth.Proofs.Typing.Indexing
import JavaSynth.Proofs.Typing.Serving
import JavaSynth.Proofs.Generate.Chain
import JavaSynth.Proofs.Generate.Levels
import JavaSynth.Proofs.Shape.Kinds
import JavaSynth.Proofs.Shape.Enabled
import JavaSynth.Proofs.Shape.Switches
import JavaSynth.Proofs.Settings.Excerpt
import JavaSynth.Proofs.Generate.PlanLimits
import JavaSynth.Proofs.Generate.Selection
import JavaSynth.Proofs.Reading.Needed
