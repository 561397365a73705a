import MethodExtraction.CommandLine.Argument
import MethodExtraction.CommandLine.Disk
import MethodExtraction.CommandLine.LogFilter
import MethodExtraction.CommandLine.Parse
import MethodExtraction.CommandLine.Program
import MethodExtraction.CommandLine.Settings
import MethodExtraction.CommandLine.Similarity
import MethodExtraction.CommandLine.Usage
import MethodExtraction.Extraction.Config
import MethodExtraction.Extraction.Engine
import MethodExtraction.Extraction.Failure
import MethodExtraction.Extraction.Statistics
import MethodExtraction.Extraction.ToFile
import MethodExtraction.Files.Change
import MethodExtraction.Files.FileSystem
import MethodExtraction.Files.IoError
import MethodExtraction.Files.Path
import MethodExtraction.Files.Walk
import MethodExtraction.Grammar.Automaton
import MethodExtraction.Grammar.BitSet
import MethodExtraction.Grammar.Catalog
import MethodExtraction.Grammar.Interference
import MethodExtraction.Grammar.Item
import MethodExtraction.Grammar.Language
import MethodExtraction.Grammar.Lexeme
import MethodExtraction.Grammar.Merging
import MethodExtraction.Grammar.Production
import MethodExtraction.Grammar.Regex
import MethodExtraction.Grammar.Rule
import MethodExtraction.Grammar.Scanning
import MethodExtraction.Grammar.Table
import MethodExtraction.Java.Construct
import MethodExtraction.Java.Derivation
import MethodExtraction.Java.Grammar
import MethodExtraction.Java.Language
import MethodExtraction.Java.Lexis
import MethodExtraction.Java.Method
import MethodExtraction.Java.Node
import MethodExtraction.Java.Parser
import MethodExtraction.Java.Search
import MethodExtraction.Java.Token
import MethodExtraction.Main
import MethodExtraction.Numeric.Binary
import MethodExtraction.Numeric.Duration
import MethodExtraction.Numeric.Numeral
import MethodExtraction.Numeric.Size
import MethodExtraction.Numeric.Unsigned
import MethodExtraction.Output.ArrayWriter
import MethodExtraction.Output.Buffer
import MethodExtraction.Output.Format
import MethodExtraction.Output.Json
import MethodExtraction.Output.Sink
import MethodExtraction.Parse.Search
import MethodExtraction.Parse.Source
import MethodExtraction.Parse.Stack
import MethodExtraction.Parse.Tree
import MethodExtraction.Proofs.Java.Preorder
import MethodExtraction.Proofs.Text.Slicing
import MethodExtraction.Text.Identifier
import MethodExtraction.Text.Slice
import MethodExtraction.Text.Trim
import MethodExtraction.Text.Uppercase
import MethodExtraction.Text.Utf8
import MethodExtraction.Proofs.Extraction.Calls
import MethodExtraction.Proofs.Output.Reading
import MethodExtraction.Proofs.Output.Delivery
import MethodExtraction.Proofs.Output.Printing
import MethodExtraction.Proofs.Output.Record
import MethodExtraction.Proofs.Output.Recovery
import MethodExtraction.Proofs.Output.Framing
import MethodExtraction.Proofs.Output.Document
import MethodExtraction.Proofs.Output.Rounds
import MethodExtraction.Proofs.Output.Requests
import MethodExtraction.Proofs.Output.Inside
import MethodExtraction.Proofs.Output.Lines
import MethodExtraction.Proofs.Extraction.Counts
import MethodExtraction.Proofs.Extraction.Endings
import MethodExtraction.Proofs.Grammar.Words
import MethodExtraction.Proofs.Java.Layout
import MethodExtraction.Proofs.Java.Shape
import MethodExtraction.Proofs.Java.Completeness
import MethodExtraction.Proofs.Java.Edges
import MethodExtraction.Proofs.Java.Nesting
import MethodExtraction.Proofs.Java.Extent
import MethodExtraction.Proofs.Files.Following
import MethodExtraction.Proofs.Files.Outline
import MethodExtraction.Proofs.Java.Rejection
import MethodExtraction.Proofs.Extraction.OwnOutput
import MethodExtraction.Proofs.Files.Directories
import MethodExtraction.Proofs.Extraction.Again
import MethodExtraction.Proofs.Files.Entries
import MethodExtraction.Proofs.Files.Reordering
import MethodExtraction.Proofs.Extraction.Listing
import MethodExtraction.Proofs.Files.Visiting
import MethodExtraction.Proofs.Files.Descent
import MethodExtraction.Proofs.Files.Exactness
import MethodExtraction.Proofs.Files.Stepwise
import MethodExtraction.Proofs.Files.Limits
import MethodExtraction.Proofs.Files.Additions
import MethodExtraction.Proofs.Extraction.Frame
import MethodExtraction.Proofs.Extraction.SizeLimit
import MethodExtraction.Proofs.Extraction.Reporting
import MethodExtraction.Proofs.CommandLine.Console
import MethodExtraction.Proofs.Text.Forms
import MethodExtraction.Proofs.Text.Parts
import MethodExtraction.Proofs.Files.Suffix
import MethodExtraction.Proofs.Extraction.Damage
import MethodExtraction.Proofs.Numeric.Sizes
import MethodExtraction.Proofs.Parse.Steps
import MethodExtraction.Proofs.Parse.Lying
import MethodExtraction.Proofs.Parse.Tokens
import MethodExtraction.Proofs.Parse.Stacks
import MethodExtraction.Proofs.Parse.Walks
import MethodExtraction.Proofs.Parse.Reductions
import MethodExtraction.Proofs.Parse.Recoveries
import MethodExtraction.Proofs.Parse.Insertions
import MethodExtraction.Proofs.Parse.Progress
import MethodExtraction.Proofs.Grammar.Rows
import MethodExtraction.Proofs.Java.Begins
import MethodExtraction.Proofs.Java.FirstError
import MethodExtraction.Proofs.Output.Quotes
import MethodExtraction.Proofs.Numeric.Durations
import MethodExtraction.Proofs.CommandLine.Wording
