import LanguageServer.Compilation
import LanguageServer.Compiler
import LanguageServer.Decimal.Binary
import LanguageServer.Decimal.Shortest
import LanguageServer.Diagnostic
import LanguageServer.Document
import LanguageServer.Exchange
import LanguageServer.Feature.Completion
import LanguageServer.Feature.Definition
import LanguageServer.Feature.Highlight
import LanguageServer.Feature.Hover
import LanguageServer.Feature.InlayHints
import LanguageServer.Feature.Outline
import LanguageServer.Feature.References
import LanguageServer.Feature.SignatureHelp
import LanguageServer.Files
import LanguageServer.Json
import LanguageServer.Json.Lexeme
import LanguageServer.Json.Numeral
import LanguageServer.Json.Reader
import LanguageServer.Json.Record
import LanguageServer.Json.Writer
import LanguageServer.Keyword
import LanguageServer.Notebook
import LanguageServer.ParseCache
import LanguageServer.Path
import LanguageServer.Percent
import LanguageServer.Position
import LanguageServer.Program
import LanguageServer.Project
import LanguageServer.Protocol.Answer
import LanguageServer.Protocol.Capabilities
import LanguageServer.Protocol.Message
import LanguageServer.Protocol.Notice
import LanguageServer.Protocol.Params
import LanguageServer.Protocol.Request
import LanguageServer.Query.Documentation
import LanguageServer.Query.Lookup
import LanguageServer.Query.Symbol
import LanguageServer.Run
import LanguageServer.Scheduling.Actor
import LanguageServer.Scheduling.Timeline
import LanguageServer.Session
import LanguageServer.Session.Clock
import LanguageServer.Session.Handling
import LanguageServer.Session.Step
import LanguageServer.Snapshot
import LanguageServer.Source
import LanguageServer.Store
import LanguageServer.Store.Action
import LanguageServer.Syntax
import LanguageServer.Syntax.Walk
import LanguageServer.Text.Blank
import LanguageServer.Text.Buffer
import LanguageServer.Text.HexDigit
import LanguageServer.Text.Pieces
import LanguageServer.Text.Printable
import LanguageServer.Text.Quoted
import LanguageServer.Text.Radix
import LanguageServer.Text.Units
import LanguageServer.Token
import LanguageServer.Ty
import LanguageServer.Uri
import LanguageServer.Uri.Grammar
import LanguageServer.Uri.Resolution
import LanguageServer.Proofs.Version
import LanguageServer.Scheduling.Desk
import LanguageServer.Proofs.Actor
import LanguageServer.Proofs.Desk
import LanguageServer.Proofs.Handling
import LanguageServer.Proofs.Step
import LanguageServer.Proofs.Soundness
import LanguageServer.Proofs.Compilation
import LanguageServer.Proofs.Serving
import LanguageServer.Proofs.Freshness
import LanguageServer.Proofs.Waiting
import LanguageServer.Proofs.Reopening
import LanguageServer.Proofs.Coherence
import LanguageServer.Proofs.Answering
import LanguageServer.Proofs.Staffing
import LanguageServer.Proofs.Saving
import LanguageServer.Proofs.Editing
import LanguageServer.Proofs.Resolution
import LanguageServer.Proofs.Shadowing
import LanguageServer.Proofs.Ledger
import LanguageServer.Attempt
import LanguageServer.Proofs.Attempt
import LanguageServer.Proofs.Publishing
import LanguageServer.Syntax.References
import LanguageServer.Proofs.Tables
import LanguageServer.Proofs.Logbook
import LanguageServer.Proofs.Queries
import LanguageServer.Proofs.Calls
import LanguageServer.Proofs.Closing
import LanguageServer.Proofs.Timeline
import LanguageServer.Proofs.Registry
import LanguageServer.Proofs.Failing
import LanguageServer.Proofs.Isolation
import LanguageServer.Proofs.Attachment
import LanguageServer.Text.Rope
import LanguageServer.Proofs.Splicing
import LanguageServer.Proofs.ClosedCells
import LanguageServer.Proofs.Explanations
import LanguageServer.Proofs.Uses
import LanguageServer.Proofs.Coding
import LanguageServer.Proofs.Naming
import LanguageServer.Proofs.Relative
import LanguageServer.Proofs.Describing
import LanguageServer.Proofs.Following
import LanguageServer.Proofs.Preorder
import LanguageServer.Syntax.Parts
import LanguageServer.Proofs.Walking
import LanguageServer.Proofs.Innermost
import LanguageServer.Proofs.Narrowing
import LanguageServer.Proofs.Sameness
import LanguageServer.Proofs.Denoting
import LanguageServer.Word
import LanguageServer.Proofs.Highlighting
import LanguageServer.Proofs.Labels
import LanguageServer.Proofs.Signatures
import LanguageServer.Proofs.Members
import LanguageServer.Proofs.Substitution
import LanguageServer.Proofs.Ancestry
import LanguageServer.Proofs.Configuring
import LanguageServer.Store.Retention
import LanguageServer.Proofs.Retention
import LanguageServer.Proofs.Literals
import LanguageServer.Proofs.CellLists
