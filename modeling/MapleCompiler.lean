import MapleCompiler.Host.Launch
import MapleCompiler.Main
import MapleCompiler.Proofs.Library.Graph
import MapleCompiler.Proofs.Library.Order
import MapleCompiler.Proofs.Reading.Faults
import MapleCompiler.Proofs.Library.Outcome
import MapleCompiler.Proofs.Acceptance.Judgement
import MapleCompiler.Proofs.Reading.Readers
import MapleCompiler.Proofs.Acceptance.Simple
import MapleCompiler.Proofs.Acceptance.Soundness
import MapleCompiler.Proofs.Token.Lexeme
import MapleCompiler.Proofs.Token.Vocabulary
import MapleCompiler.Proofs.Printing.Source
import MapleCompiler.Proofs.Printing.Statements
import MapleCompiler.Proofs.Printing.RoundTrip
import MapleCompiler.Proofs.Scoping.Site
import MapleCompiler.Proofs.Scoping.Known
import MapleCompiler.Proofs.Acceptance.Exchange
import MapleCompiler.Proofs.Token.Literal
import MapleCompiler.Proofs.Scoping.Resolution
import MapleCompiler.Proofs.Scoping.Calls
import MapleCompiler.Proofs.Scoping.Soundness
import MapleCompiler.Proofs.Scoping.Trace
import MapleCompiler.Proofs.Scoping.Blocks
import MapleCompiler.Proofs.Scoping.Visibility
import MapleCompiler.Proofs.Scoping.Agreement
import MapleCompiler.Proofs.Running.Store
import MapleCompiler.Proofs.Running.Copies
import MapleCompiler.Proofs.Typing.Soundness
import MapleCompiler.Proofs.Typing.Bounds
import MapleCompiler.Proofs.Typing.Operands
import MapleCompiler.Proofs.Text.Bytes
import MapleCompiler.Proofs.Acceptance.Shape
import MapleCompiler.Proofs.Token.Layout
import MapleCompiler.Proofs.Emission.Braces
import MapleCompiler.Proofs.Emission.Nesting
import MapleCompiler.Proofs.Library.Location
import MapleCompiler.Proofs.Library.Memory
import MapleCompiler.Proofs.Library.Alone
import MapleCompiler.Proofs.Token.LongestMatch
import MapleCompiler.Proofs.Diagnostic.Caret
import MapleCompiler.Proofs.Emission.Header
import MapleCompiler.Proofs.Emission.Indices
import MapleCompiler.Proofs.Scope.Renaming
import MapleCompiler.Proofs.Program.Renaming
import MapleCompiler.Proofs.Reading.Pairing
import MapleCompiler.Proofs.Reading.Tandem
import MapleCompiler.Proofs.Reading.Walk
import MapleCompiler.Proofs.Reading.Alone
import MapleCompiler.Proofs.Reading.Lockstep
import MapleCompiler.Proofs.Reading.Dialects
import MapleCompiler.Proofs.Compilation.Layout
import MapleCompiler.Proofs.Compilation.Migration
import MapleCompiler.Proofs.Typing.Words
import MapleCompiler.Proofs.Host.Paths
import MapleCompiler.Proofs.Library.Confinement
import MapleCompiler.Proofs.Emission.Includes
import MapleCompiler.Proofs.Host.Writing
import MapleCompiler.Proofs.Command.Steps
import MapleCompiler.Proofs.Command.Artifacts
import MapleCompiler.Proofs.Scoping.Shadowing
import MapleCompiler.Proofs.Emission.Contents
import MapleCompiler.Proofs.Reading.Cursor
import MapleCompiler.Proofs.Reading.Termination
import MapleCompiler.Proofs.Reading.Locality
import MapleCompiler.Proofs.Scope.Runs
import MapleCompiler.Proofs.Emission.Reuse
import MapleCompiler.Proofs.Reading.Names
import MapleCompiler.Proofs.Reading.Backups
import MapleCompiler.Proofs.Compilation.Spacing
import MapleCompiler.Proofs.Token.Numbers
import MapleCompiler.Proofs.Command.BuiltProgram
import MapleCompiler.Proofs.Reading.Changes
import MapleCompiler.Proofs.Parser.Following
import MapleCompiler.Proofs.Parser.Safety
import MapleCompiler.Proofs.Parser.Frame
import MapleCompiler.Proofs.Language.Index
