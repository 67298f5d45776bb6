import Snowlake.Sema.Options
import Snowlake.Synth.Isolation
import Snowlake.Synth.Paths
import Snowlake.Synth.Lookup
import Snowlake.Synth.Translation
import Snowlake.Synth.Grammatical
import Snowlake.Parse.Location
import Snowlake.Parse.Alphabet
import Snowlake.Args.Numerals
import Snowlake.Synth.Ordinals
import Snowlake.Synth.Subscripts
import Snowlake.Synth.Kinds
import Snowlake.Synth.Signatures
import Snowlake.Traversal
import Snowlake.Sema.Reporting
import Snowlake.Cpp.Layout
import Snowlake.Cpp.Lexemes
import Snowlake.Synth.Annotations
import Snowlake.Synth.Erasure
import Snowlake.Synth.Layout
import Snowlake.Sema.TargetTable
import Snowlake.Args.Registration
import Snowlake.ErrorHandlers
import Snowlake.Coverage
import Snowlake.Variant.Selection
import Snowlake.Variant.Agreement
import Snowlake.Variant.Order
import Snowlake.Optional
import Snowlake.Args.Destinations
import Snowlake.Identifiables
import Snowlake.Driver.ProgramDriver
