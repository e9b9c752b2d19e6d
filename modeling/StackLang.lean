import StackLang.Text.Alphabetic
import StackLang.Text.Blank
import StackLang.Text.Decimal
import StackLang.Text.Printable
import StackLang.Text.Quoted
import StackLang.Text.Ranges
import StackLang.Value
import StackLang.Operator
import StackLang.Native
import StackLang.Position
import StackLang.Token
import StackLang.Token.Scan
import StackLang.Token.Listing
import StackLang.Tree
import StackLang.Tree.Numbering
import StackLang.Tree.Parse
import StackLang.Scope
import StackLang.Resolution
import StackLang.Code
import StackLang.Code.Length
import StackLang.Code.Generate
import StackLang.Wire
import StackLang.Code.Binary
import StackLang.Code.Text
import StackLang.Code.Load
import StackLang.Code.Listing
import StackLang.Code.Check
import StackLang.Text.Utf8
import StackLang.Stack
import StackLang.Interaction
import StackLang.Machine
import StackLang.Machine.Step
import StackLang.Machine.Run
import StackLang.Source
import StackLang.CommandLine.Arguments
import StackLang.CommandLine.FileSystem
import StackLang.CommandLine.Help
import StackLang.CommandLine.Job
import StackLang.CommandLine.Path
import StackLang.Main
import StackLang.Proofs.Numbering
import StackLang.Proofs.Resolved
import StackLang.Proofs.OpenScopes
import StackLang.Proofs.Notes
import StackLang.Proofs.ResolutionWalk
import StackLang.Proofs.Layout
import StackLang.Proofs.Pieces
import StackLang.Proofs.CheckedCode
import StackLang.Proofs.BalancedCode
import StackLang.Proofs.Execution
import StackLang.Proofs.Turns
import StackLang.Proofs.CheckedRuns
import StackLang.Proofs.CallTargets
import StackLang.Proofs.Soundness
import StackLang.Proofs.Calls
import StackLang.Proofs.StackSafety
import StackLang.Proofs.Following
import StackLang.Proofs.Simulation
import StackLang.Proofs.CompilerCorrectness
import StackLang.Proofs.NamedVariables
import StackLang.Proofs.LexicalMeaning
import StackLang.Proofs.Accesses
import StackLang.Proofs.SharedSlots
import StackLang.Proofs.CodeLength
import StackLang.Proofs.EmittedCode
import StackLang.Proofs.Places
import StackLang.Proofs.ScopingRules
import StackLang.Proofs.WellScoped
import StackLang.Proofs.TextPieces
import StackLang.Proofs.TextRoundTrip
import StackLang.Proofs.BinaryRoundTrip
import StackLang.Proofs.Grammar
import StackLang.Proofs.Readers
import StackLang.Proofs.ParseSoundness
import StackLang.Proofs.ParseCompleteness
import StackLang.Proofs.TreeHeight
import StackLang.Proofs.ScannedTokens
import StackLang.Proofs.SourceTables
import StackLang.Proofs.WrittenFiles
import StackLang.Proofs.CompiledFiles
import StackLang.Proofs.ResourceLimits
import StackLang.Proofs.StateBounds
import StackLang.Proofs.CallDiscipline
import StackLang.Proofs.Renumbering
import StackLang.Proofs.FunctionOrder
import StackLang.Proofs.Lexemes
import StackLang.Proofs.ScopeOperations
import StackLang.Proofs.Tiling
import StackLang.Proofs.TraversalOrder
import StackLang.Proofs.PrintedTokens
import StackLang.Proofs.QuotedStrings
import StackLang.Proofs.Numerals
import StackLang.Proofs.ExactIntegers
import StackLang.Proofs.ReaderReuse
