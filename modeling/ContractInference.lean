import ContractInference.Builder
import ContractInference.Chain
import ContractInference.Classifier
import ContractInference.Configuration
import ContractInference.Datum.Basic
import ContractInference.Datum.Display
import ContractInference.Datum.Merge
import ContractInference.Declaration
import ContractInference.Environment
import ContractInference.Extraction
import ContractInference.Failure
import ContractInference.Fault
import ContractInference.Files
import ContractInference.Json.Quoted
import ContractInference.Json.Reader
import ContractInference.Json.Writer
import ContractInference.Language
import ContractInference.Links
import ContractInference.Literal
import ContractInference.Log
import ContractInference.Number.Binary64
import ContractInference.Number.Reading
import ContractInference.Number.Shortest
import ContractInference.Path.Basic
import ContractInference.Path.Candidates
import ContractInference.Path.Template
import ContractInference.Proofs.Activation
import ContractInference.Proofs.BuilderRoundTrip
import ContractInference.Proofs.BuilderType
import ContractInference.Proofs.Call
import ContractInference.Proofs.CallViews
import ContractInference.Proofs.CanonicalPath
import ContractInference.Proofs.Checked
import ContractInference.Proofs.CleanPath
import ContractInference.Proofs.CommentedDeclaration
import ContractInference.Proofs.CommentedExtraction
import ContractInference.Proofs.Comments
import ContractInference.Proofs.Coverage
import ContractInference.Proofs.CutShort
import ContractInference.Proofs.DefaultText
import ContractInference.Proofs.DocumentSchemas
import ContractInference.Proofs.Exported
import ContractInference.Proofs.Failing
import ContractInference.Proofs.FaithfulReports
import ContractInference.Proofs.Fallible
import ContractInference.Proofs.FieldForm
import ContractInference.Proofs.Forwarding
import ContractInference.Proofs.IntegerLiteral
import ContractInference.Proofs.Invariant
import ContractInference.Proofs.Isolation
import ContractInference.Proofs.Issues
import ContractInference.Proofs.Kept
import ContractInference.Proofs.Ledger
import ContractInference.Proofs.Loading
import ContractInference.Proofs.LocalNames
import ContractInference.Proofs.MergedPaths
import ContractInference.Proofs.Merging
import ContractInference.Proofs.Mirror
import ContractInference.Proofs.Numeral
import ContractInference.Proofs.ObjectMerge
import ContractInference.Proofs.ParseOnce
import ContractInference.Proofs.Precedence
import ContractInference.Proofs.Provenance
import ContractInference.Proofs.QuotedText
import ContractInference.Proofs.Reference
import ContractInference.Proofs.RelativeNames
import ContractInference.Proofs.Rescan
import ContractInference.Proofs.Returns
import ContractInference.Proofs.Revalidation
import ContractInference.Proofs.Roles
import ContractInference.Proofs.Session
import ContractInference.Proofs.Settled
import ContractInference.Proofs.Share
import ContractInference.Proofs.StringLiteral
import ContractInference.Proofs.StringRule
import ContractInference.Proofs.Tables
import ContractInference.Proofs.Termination
import ContractInference.Proofs.TopLevel
import ContractInference.Proofs.Traversal
import ContractInference.Proofs.TypeLabels
import ContractInference.Proofs.Uncached
import ContractInference.Proofs.WriteOnce
import ContractInference.Proofs.Written
import ContractInference.Resolution.Cache
import ContractInference.Resolution.Engine
import ContractInference.Resolution.Event
import ContractInference.Resolution.InFlight
import ContractInference.Schema.Basic
import ContractInference.Schema.Map
import ContractInference.Schema.Report
import ContractInference.Sdl.Document
import ContractInference.Sdl.Reading
import ContractInference.Sdl.Schemas
import ContractInference.Sdl.Token
import ContractInference.Settings.Basic
import ContractInference.Settings.Check
import ContractInference.Settings.Reading
import ContractInference.SourceTree
import ContractInference.Syntax.Grammar.Basic
import ContractInference.Syntax.Grammar.Classes
import ContractInference.Syntax.Grammar.Expressions
import ContractInference.Syntax.Grammar.Functions
import ContractInference.Syntax.Grammar.Literals
import ContractInference.Syntax.Grammar.Markup
import ContractInference.Syntax.Grammar.Modules
import ContractInference.Syntax.Grammar.Names
import ContractInference.Syntax.Grammar.Program
import ContractInference.Syntax.Grammar.Statements
import ContractInference.Syntax.Grammar.Types
import ContractInference.Syntax.Node
import ContractInference.Syntax.Tree
import ContractInference.Table
import ContractInference.Text.Basic
import ContractInference.Text.Blank
import ContractInference.Text.Lossy
import ContractInference.Text.Lowercase
import ContractInference.Text.Printable
import ContractInference.Yaml.Block
import ContractInference.Yaml.Error
import ContractInference.Yaml.Layout
import ContractInference.Yaml.Line
import ContractInference.Yaml.Node
import ContractInference.Yaml.Plain
import ContractInference.Yaml.Quoted
import ContractInference.Yaml.Scalar
import ContractInference.Yaml.Tag
import ContractInference.Yaml.Token
import ContractInference.Yaml.Value
