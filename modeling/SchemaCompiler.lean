import SchemaCompiler.Code.Delete
import SchemaCompiler.Code.Fault
import SchemaCompiler.Code.Lookup
import SchemaCompiler.Code.Output
import SchemaCompiler.Code.Plan
import SchemaCompiler.Code.RowType
import SchemaCompiler.Code.Settings
import SchemaCompiler.Code.Tree
import SchemaCompiler.Command.Arguments
import SchemaCompiler.Command.Clause
import SchemaCompiler.Command.Compile
import SchemaCompiler.Command.Files
import SchemaCompiler.Command.Formatter
import SchemaCompiler.Command.Host
import SchemaCompiler.Command.LogFilter
import SchemaCompiler.Compilation
import SchemaCompiler.Diagnostic
import SchemaCompiler.Diagnostic.Outline
import SchemaCompiler.Document
import SchemaCompiler.Document.Parser
import SchemaCompiler.Event
import SchemaCompiler.Main
import SchemaCompiler.Ordered
import SchemaCompiler.Proofs.Acceptance
import SchemaCompiler.Proofs.AccessorContent
import SchemaCompiler.Proofs.AccessorShape
import SchemaCompiler.Proofs.AddedTable
import SchemaCompiler.Proofs.AddressedRows
import SchemaCompiler.Proofs.AllOrNothing
import SchemaCompiler.Proofs.CanonicalText
import SchemaCompiler.Proofs.CascadeActs
import SchemaCompiler.Proofs.CascadeClosure
import SchemaCompiler.Proofs.CascadeCover
import SchemaCompiler.Proofs.CascadeDepth
import SchemaCompiler.Proofs.CascadeDescent
import SchemaCompiler.Proofs.CascadeIntegrity
import SchemaCompiler.Proofs.CascadeOnce
import SchemaCompiler.Proofs.CascadeOutcome
import SchemaCompiler.Proofs.CascadeRecord
import SchemaCompiler.Proofs.CascadeReentry
import SchemaCompiler.Proofs.CascadeRun
import SchemaCompiler.Proofs.CascadeSuccess
import SchemaCompiler.Proofs.ClauseLanguage
import SchemaCompiler.Proofs.Completion
import SchemaCompiler.Proofs.DefaultCapture
import SchemaCompiler.Proofs.DiagnosticChain
import SchemaCompiler.Proofs.Entries
import SchemaCompiler.Proofs.Grammar
import SchemaCompiler.Proofs.GraphContent
import SchemaCompiler.Proofs.GraphShape
import SchemaCompiler.Proofs.IdentifierShape
import SchemaCompiler.Proofs.LexicalAgreement
import SchemaCompiler.Proofs.LineEnds
import SchemaCompiler.Proofs.LookAhead
import SchemaCompiler.Proofs.LookupContent
import SchemaCompiler.Proofs.Orientation
import SchemaCompiler.Proofs.OutputContent
import SchemaCompiler.Proofs.ParallelReading
import SchemaCompiler.Proofs.ParserGrammar
import SchemaCompiler.Proofs.PlanContent
import SchemaCompiler.Proofs.PlanEntries
import SchemaCompiler.Proofs.PlanShape
import SchemaCompiler.Proofs.PositionCount
import SchemaCompiler.Proofs.PositionOrder
import SchemaCompiler.Proofs.Recognition
import SchemaCompiler.Proofs.RegularSchema
import SchemaCompiler.Proofs.Representable
import SchemaCompiler.Proofs.RowShape
import SchemaCompiler.Proofs.SchemaContent
import SchemaCompiler.Proofs.SchemaShape
import SchemaCompiler.Proofs.SequenceNames
import SchemaCompiler.Proofs.Spelling
import SchemaCompiler.Proofs.StatementOrder
import SchemaCompiler.Proofs.StoreShape
import SchemaCompiler.Proofs.SuccessiveTexts
import SchemaCompiler.Proofs.TableContent
import SchemaCompiler.Proofs.TableLayout
import SchemaCompiler.Proofs.TableShape
import SchemaCompiler.Proofs.TokenText
import SchemaCompiler.Proofs.Tokenization
import SchemaCompiler.Proofs.Viability
import SchemaCompiler.Proofs.ViableDocuments
import SchemaCompiler.Proofs.WellFormedness
import SchemaCompiler.Schema
import SchemaCompiler.Schema.Build
import SchemaCompiler.Schema.Column
import SchemaCompiler.Schema.Edit
import SchemaCompiler.Schema.Fault
import SchemaCompiler.Schema.Graph
import SchemaCompiler.Schema.Name
import SchemaCompiler.Schema.Read
import SchemaCompiler.Schema.Table
import SchemaCompiler.Store.Cascade
import SchemaCompiler.Store.Row
import SchemaCompiler.Store.Session
import SchemaCompiler.Target.Identifier
import SchemaCompiler.Target.Item
import SchemaCompiler.Target.Token
import SchemaCompiler.Text.Blank
import SchemaCompiler.Text.Case
import SchemaCompiler.Text.Hidden
import SchemaCompiler.Text.Identifier
import SchemaCompiler.Text.Offset
import SchemaCompiler.Text.Quoted
import SchemaCompiler.Text.Utf8
import SchemaCompiler.Token
import SchemaCompiler.Token.Lexer
