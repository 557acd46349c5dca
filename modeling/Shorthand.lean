import Shorthand.Catalogue
import Shorthand.Catalogue.Archive
import Shorthand.Catalogue.Error
import Shorthand.Catalogue.Exchange
import Shorthand.Catalogue.File
import Shorthand.CommandLine
import Shorthand.CommandLine.Arguments
import Shorthand.Dictionary
import Shorthand.Document
import Shorthand.Edit
import Shorthand.Edit.Record
import Shorthand.Files
import Shorthand.Files.Path
import Shorthand.Identifier
import Shorthand.Json.Numeral
import Shorthand.Json.Pretty
import Shorthand.Json.Record
import Shorthand.Json.Token
import Shorthand.Json.Tree
import Shorthand.Json.Value
import Shorthand.Library
import Shorthand.Main
import Shorthand.Management
import Shorthand.Notice
import Shorthand.Playground
import Shorthand.Position
import Shorthand.Proofs.Catalogue.Clashes
import Shorthand.Proofs.Catalogue.Durable
import Shorthand.Proofs.Catalogue.Exact
import Shorthand.Proofs.Catalogue.Exchange
import Shorthand.Proofs.Catalogue.File
import Shorthand.Proofs.Catalogue.Grouping
import Shorthand.Proofs.Catalogue.Import
import Shorthand.Proofs.Catalogue.Reading
import Shorthand.Proofs.Catalogue.Run
import Shorthand.Proofs.Catalogue.Stored
import Shorthand.Proofs.Catalogue.Tally
import Shorthand.Proofs.Catalogue.Verdict
import Shorthand.Proofs.Catalogue.WellKept
import Shorthand.Proofs.Catalogue.Written
import Shorthand.Proofs.CommandLine
import Shorthand.Proofs.CommandLine.Demonstration
import Shorthand.Proofs.CommandLine.Exit
import Shorthand.Proofs.CommandLine.Writes
import Shorthand.Proofs.Dictionary
import Shorthand.Proofs.Dictionary.Consistent
import Shorthand.Proofs.Document.Caret
import Shorthand.Proofs.Document.Expansion
import Shorthand.Proofs.Document.Flat
import Shorthand.Proofs.Document.Grounded
import Shorthand.Proofs.Document.Guarded
import Shorthand.Proofs.Document.History
import Shorthand.Proofs.Document.Keystrokes
import Shorthand.Proofs.Document.Order
import Shorthand.Proofs.Document.Run
import Shorthand.Proofs.Document.Typing
import Shorthand.Proofs.Files
import Shorthand.Proofs.Files.Existence
import Shorthand.Proofs.Files.Footprint
import Shorthand.Proofs.Files.Path
import Shorthand.Proofs.Files.Route
import Shorthand.Proofs.Guarded
import Shorthand.Proofs.Json.Grammar
import Shorthand.Proofs.Json.Members
import Shorthand.Proofs.Json.Pretty
import Shorthand.Proofs.Json.Spelling
import Shorthand.Proofs.Library.Callers
import Shorthand.Proofs.Library.Fetching
import Shorthand.Proofs.Library.Log
import Shorthand.Proofs.Library.Run
import Shorthand.Proofs.Management
import Shorthand.Proofs.Management.Naming
import Shorthand.Proofs.Persistence
import Shorthand.Proofs.Playground
import Shorthand.Proofs.Playground.Caret
import Shorthand.Proofs.Playground.Frame
import Shorthand.Proofs.Playground.Typing
import Shorthand.Proofs.Position
import Shorthand.Proofs.Records
import Shorthand.Proofs.Stepwise
import Shorthand.Proofs.Stock
import Shorthand.Proofs.Table
import Shorthand.Proofs.Template
import Shorthand.Proofs.Text.Blank
import Shorthand.Proofs.Text.Lines
import Shorthand.Proofs.Text.Split
import Shorthand.Proofs.Timers.Log
import Shorthand.Proofs.Timers.Run
import Shorthand.Proofs.Trigger
import Shorthand.Proofs.Trigger.Exact
import Shorthand.Proofs.Words
import Shorthand.Settings
import Shorthand.Snippet
import Shorthand.Snippet.Record
import Shorthand.Stock
import Shorthand.Table
import Shorthand.Template
import Shorthand.Text.Blank
import Shorthand.Text.CaseTable
import Shorthand.Text.Lines
import Shorthand.Text.Lowercase
import Shorthand.Text.Split
import Shorthand.Timers
import Shorthand.Timestamp
import Shorthand.Trigger
import Shorthand.Viewer
