import FactorySync.Command.Options
import FactorySync.Command.Run
import FactorySync.Config.Basic
import FactorySync.Config.Loading
import FactorySync.Config.Reading
import FactorySync.Diagnostic
import FactorySync.Disk.Basic
import FactorySync.Disk.Discover
import FactorySync.Disk.Tree
import FactorySync.Factory.Basic
import FactorySync.Factory.Catalog
import FactorySync.Factory.Generate
import FactorySync.Glob
import FactorySync.Import.Basic
import FactorySync.Import.Reconcile
import FactorySync.Json.Number
import FactorySync.Json.Reader
import FactorySync.Literal.Clear
import FactorySync.Literal.Insert
import FactorySync.Literal.Members
import FactorySync.Main
import FactorySync.NameTable
import FactorySync.Parse.Basic
import FactorySync.Parse.Declarations
import FactorySync.Parse.Expressions
import FactorySync.Parse.File
import FactorySync.Parse.Functions
import FactorySync.Parse.Modules
import FactorySync.Parse.Names
import FactorySync.Parse.ObjectLiteral
import FactorySync.Parse.Signatures
import FactorySync.Parse.Statements
import FactorySync.Parse.Types
import FactorySync.Path.Basic
import FactorySync.Path.Extension
import FactorySync.Path.Module
import FactorySync.Print.Layout
import FactorySync.Print.Method
import FactorySync.Program.Basic
import FactorySync.Program.Declared
import FactorySync.Program.Exports
import FactorySync.Program.Interfaces
import FactorySync.Program.Kinds
import FactorySync.Program.Module
import FactorySync.Program.Target
import FactorySync.Project.Basic
import FactorySync.Proofs.AddedImports
import FactorySync.Proofs.Answers
import FactorySync.Proofs.AscendingNotes
import FactorySync.Proofs.Bindings
import FactorySync.Proofs.Blanks
import FactorySync.Proofs.Broken
import FactorySync.Proofs.Calls
import FactorySync.Proofs.CanonicalPaths
import FactorySync.Proofs.Clearing
import FactorySync.Proofs.CompleteCatalog
import FactorySync.Proofs.Conflict
import FactorySync.Proofs.Creation
import FactorySync.Proofs.Discovery
import FactorySync.Proofs.Disks
import FactorySync.Proofs.Edits
import FactorySync.Proofs.ExactImports
import FactorySync.Proofs.Exchange
import FactorySync.Proofs.ExportPaths
import FactorySync.Proofs.FactoryWords
import FactorySync.Proofs.FirstUses
import FactorySync.Proofs.Gaps
import FactorySync.Proofs.GeneratedConstants
import FactorySync.Proofs.GeneratedFiles
import FactorySync.Proofs.GeneratedImports
import FactorySync.Proofs.GeneratedMembers
import FactorySync.Proofs.GeneratedOutcomes
import FactorySync.Proofs.Grammar.Expressions
import FactorySync.Proofs.Grammar.Signatures
import FactorySync.Proofs.Grammar.Statements
import FactorySync.Proofs.Grammar.Types
import FactorySync.Proofs.Grouping
import FactorySync.Proofs.ImportEdits
import FactorySync.Proofs.ImportForms
import FactorySync.Proofs.ImportFrames
import FactorySync.Proofs.Inheritance
import FactorySync.Proofs.Insertion
import FactorySync.Proofs.Kinds
import FactorySync.Proofs.Layout
import FactorySync.Proofs.Lexemes
import FactorySync.Proofs.LineBreaks
import FactorySync.Proofs.LineLookup
import FactorySync.Proofs.LiteralEntries
import FactorySync.Proofs.LiteralOffsets
import FactorySync.Proofs.Mentions
import FactorySync.Proofs.ModulePlaces
import FactorySync.Proofs.NamedExports
import FactorySync.Proofs.NeededImports
import FactorySync.Proofs.Notes
import FactorySync.Proofs.Operands
import FactorySync.Proofs.Outlines
import FactorySync.Proofs.Output
import FactorySync.Proofs.Paths
import FactorySync.Proofs.Patterns
import FactorySync.Proofs.Persistence
import FactorySync.Proofs.Pieces
import FactorySync.Proofs.Place
import FactorySync.Proofs.Placement
import FactorySync.Proofs.Placement.Expressions
import FactorySync.Proofs.Placement.Files
import FactorySync.Proofs.Placement.Rules
import FactorySync.Proofs.Placement.Signatures
import FactorySync.Proofs.Placement.Statements
import FactorySync.Proofs.Placement.Types
import FactorySync.Proofs.Precedence
import FactorySync.Proofs.Preservation
import FactorySync.Proofs.PrintedConstant
import FactorySync.Proofs.PrintedFactories
import FactorySync.Proofs.PrintedImports
import FactorySync.Proofs.PrintedTypes
import FactorySync.Proofs.Progress
import FactorySync.Proofs.Quoting
import FactorySync.Proofs.Ranges
import FactorySync.Proofs.Reachability
import FactorySync.Proofs.Reading
import FactorySync.Proofs.Remainder
import FactorySync.Proofs.Removal
import FactorySync.Proofs.Rerun
import FactorySync.Proofs.Resuming
import FactorySync.Proofs.RewrittenImports
import FactorySync.Proofs.Rows
import FactorySync.Proofs.Rules
import FactorySync.Proofs.Scanning
import FactorySync.Proofs.SelfImports
import FactorySync.Proofs.Skipping
import FactorySync.Proofs.Specifiers
import FactorySync.Proofs.Speculation
import FactorySync.Proofs.Spelling
import FactorySync.Proofs.Splices
import FactorySync.Proofs.Stages
import FactorySync.Proofs.StatementRows
import FactorySync.Proofs.Store
import FactorySync.Proofs.Target
import FactorySync.Proofs.Tiling
import FactorySync.Proofs.TokenEnds
import FactorySync.Proofs.TokenStream
import FactorySync.Proofs.Totality.Expressions
import FactorySync.Proofs.Totality.Files
import FactorySync.Proofs.Totality.Signatures
import FactorySync.Proofs.Totality.Statements
import FactorySync.Proofs.Totality.Types
import FactorySync.Proofs.TypeGuards
import FactorySync.Proofs.TypeTerms
import FactorySync.Proofs.UniformBreaks
import FactorySync.Proofs.Unsupported
import FactorySync.Proofs.WordPlaces
import FactorySync.Proofs.Words
import FactorySync.Reference.File
import FactorySync.Reference.Occurrence
import FactorySync.Reference.Scope
import FactorySync.Search
import FactorySync.Text.Bytes
import FactorySync.Text.CharClass
import FactorySync.Text.Edit
import FactorySync.Text.IdentifierTable
import FactorySync.Text.Lines
import FactorySync.Text.Quoted
import FactorySync.Text.Replace
import FactorySync.Text.Span
import FactorySync.Token.Basic
import FactorySync.Token.Kind
import FactorySync.Token.Lexeme
import FactorySync.Token.Scanner
import FactorySync.Token.Trivia
import FactorySync.Tree.Names
import FactorySync.Tree.Node
