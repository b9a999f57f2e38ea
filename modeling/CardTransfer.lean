import CardTransfer.BackOff
import CardTransfer.Card.Basic
import CardTransfer.Card.Definition
import CardTransfer.Card.Graph
import CardTransfer.Card.Reference
import CardTransfer.Card.State
import CardTransfer.Catalog.Basic
import CardTransfer.Catalog.Correspondence
import CardTransfer.Catalog.Description
import CardTransfer.Catalog.FieldChoice
import CardTransfer.Catalog.Mapping
import CardTransfer.Catalog.NameMatch
import CardTransfer.Catalog.Ranking
import CardTransfer.Catalog.Suggestion
import CardTransfer.Cli.Command
import CardTransfer.Cli.Grammar
import CardTransfer.Cli.Layout
import CardTransfer.Cli.Program
import CardTransfer.Cli.Reading
import CardTransfer.Cli.Workspace
import CardTransfer.Decimal.Binary64
import CardTransfer.Decimal.Shortest
import CardTransfer.Fault
import CardTransfer.Json.Access
import CardTransfer.Json.Basic
import CardTransfer.Json.Display
import CardTransfer.Json.Id
import CardTransfer.Json.Number
import CardTransfer.Json.Parser
import CardTransfer.Json.Printer
import CardTransfer.Main
import CardTransfer.Mbql.Clause
import CardTransfer.Mbql.IdUse
import CardTransfer.Mbql.Query
import CardTransfer.Mbql.Transfer
import CardTransfer.Metabase.Client
import CardTransfer.Metabase.Instance
import CardTransfer.Oracle.Gemini
import CardTransfer.Oracle.Rendering
import CardTransfer.Proofs.Card.Blocked
import CardTransfer.Proofs.Card.Order
import CardTransfer.Proofs.Card.Reference
import CardTransfer.Proofs.Decimal.Interval
import CardTransfer.Proofs.Decimal.Nearest
import CardTransfer.Proofs.Decimal.Rounding
import CardTransfer.Proofs.Decimal.Shortest
import CardTransfer.Proofs.Except
import CardTransfer.Proofs.Json.Agreement
import CardTransfer.Proofs.Json.Double
import CardTransfer.Proofs.Json.Entry
import CardTransfer.Proofs.Json.IdMap
import CardTransfer.Proofs.Json.IdOrder
import CardTransfer.Proofs.Json.Lasting
import CardTransfer.Proofs.Json.Number
import CardTransfer.Proofs.Json.RoundTrip
import CardTransfer.Proofs.Json.Text
import CardTransfer.Proofs.Mbql.Account
import CardTransfer.Proofs.Mbql.Member
import CardTransfer.Proofs.Mbql.Replacement
import CardTransfer.Proofs.Mbql.RoundTrip
import CardTransfer.Proofs.Mbql.Use
import CardTransfer.Proofs.Mbql.Visit
import CardTransfer.Proofs.Session.Frame
import CardTransfer.Proofs.Session.Kept
import CardTransfer.Proofs.Session.Precedence
import CardTransfer.Proofs.Session.Reload
import CardTransfer.Proofs.Session.Rendering
import CardTransfer.Proofs.Sorting
import CardTransfer.Proofs.Sql.Balance
import CardTransfer.Proofs.Sql.Call
import CardTransfer.Proofs.Sql.CastOperand
import CardTransfer.Proofs.Sql.CastType
import CardTransfer.Proofs.Sql.Comment
import CardTransfer.Proofs.Sql.Dialect
import CardTransfer.Proofs.Sql.Literal
import CardTransfer.Proofs.Sql.Nested
import CardTransfer.Proofs.Sql.Operand
import CardTransfer.Proofs.Sql.PostfixCast
import CardTransfer.Proofs.Sql.Residual
import CardTransfer.Proofs.Sql.Separation
import CardTransfer.Proofs.Sql.Spellings
import CardTransfer.Proofs.Sql.TypeKey
import CardTransfer.Proofs.Steps
import CardTransfer.Proofs.Store.CardMap
import CardTransfer.Proofs.Store.Directory
import CardTransfer.Proofs.Store.State
import CardTransfer.Proofs.Text.Character
import CardTransfer.Proofs.Text.Numeral
import CardTransfer.Proofs.Text.Scan
import CardTransfer.Proofs.Transfer.Again
import CardTransfer.Proofs.Transfer.Batch
import CardTransfer.Proofs.Transfer.BatchAfter
import CardTransfer.Proofs.Transfer.BatchCards
import CardTransfer.Proofs.Transfer.BatchOrder
import CardTransfer.Proofs.Transfer.BatchReach
import CardTransfer.Proofs.Transfer.Call
import CardTransfer.Proofs.Transfer.Chronicle
import CardTransfer.Proofs.Transfer.Cycles
import CardTransfer.Proofs.Transfer.DryRun
import CardTransfer.Proofs.Transfer.Frame
import CardTransfer.Proofs.Transfer.Levels
import CardTransfer.Proofs.Transfer.Listing
import CardTransfer.Proofs.Transfer.Once
import CardTransfer.Proofs.Transfer.Prediction
import CardTransfer.Proofs.Transfer.ProvidersFirst
import CardTransfer.Proofs.Transfer.Reports
import CardTransfer.Proofs.Transfer.Stage
import CardTransfer.Proofs.Transfer.States
import CardTransfer.Proofs.Transfer.TwoOracles
import CardTransfer.Proofs.Transfer.Unresolved
import CardTransfer.Proofs.Transfer.Waiting
import CardTransfer.Proofs.Transfer.WaitingTwice
import CardTransfer.Session.Basic
import CardTransfer.Session.Mappings
import CardTransfer.Session.Rendering
import CardTransfer.Settings.Basic
import CardTransfer.Settings.Reader
import CardTransfer.Sorting
import CardTransfer.Sql.Call
import CardTransfer.Sql.Cast
import CardTransfer.Sql.Date
import CardTransfer.Sql.Dialect
import CardTransfer.Sql.Literal
import CardTransfer.Sql.NativeQuery
import CardTransfer.Sql.Operand
import CardTransfer.Sql.Parenthesis
import CardTransfer.Sql.Placeholder
import CardTransfer.Sql.PostfixCast
import CardTransfer.Sql.Residual
import CardTransfer.Sql.Spacing
import CardTransfer.Sql.TableName
import CardTransfer.Sql.TagTable
import CardTransfer.Store.CardMap
import CardTransfer.Store.Directory
import CardTransfer.Store.Mappings
import CardTransfer.Store.State
import CardTransfer.Text.Alphanumeric
import CardTransfer.Text.Blank
import CardTransfer.Text.Digit
import CardTransfer.Text.LowerCase
import CardTransfer.Text.Numeral
import CardTransfer.Text.Printable
import CardTransfer.Text.Scan
import CardTransfer.Text.Sha256
import CardTransfer.Text.Unit
import CardTransfer.Text.Word
import CardTransfer.Transfer.Batch
import CardTransfer.Transfer.Card
import CardTransfer.Transfer.Outcome
import CardTransfer.Transfer.Query
import CardTransfer.Transfer.Summary
import CardTransfer.Transfer.Verification
import CardTransfer.Transfer.WaitingArea
import CardTransfer.Yaml.Cursor
import CardTransfer.Yaml.Document
import CardTransfer.Yaml.Layout
import CardTransfer.Yaml.Mark
import CardTransfer.Yaml.Moment
import CardTransfer.Yaml.Node
import CardTransfer.Yaml.Plain
import CardTransfer.Yaml.Quotation
import CardTransfer.Yaml.Scalar
import CardTransfer.Yaml.TextBlock
import CardTransfer.Proofs.Catalog.Description
import CardTransfer.Proofs.Sql.CardTag
import CardTransfer.Proofs.Sql.Spacing
import CardTransfer.Proofs.Sql.LiteralFate
import CardTransfer.Proofs.Sql.LiteralsKept
import CardTransfer.Proofs.Sql.ArgumentList
import CardTransfer.Proofs.Sql.CallEdit
import CardTransfer.Proofs.Sql.QuotedName
import CardTransfer.Proofs.Card.Search
import CardTransfer.Proofs.Card.Providers
import CardTransfer.Proofs.Session.AutoConfirm
import CardTransfer.Proofs.Sql.Rename
import CardTransfer.Proofs.Sql.Settled
import CardTransfer.Proofs.Session.FieldChoice
import CardTransfer.Proofs.Session.Retries
import CardTransfer.Proofs.Transfer.OnHold
import CardTransfer.Proofs.Session.Decisions
import CardTransfer.Proofs.Sql.Backwards
import CardTransfer.Proofs.Sql.CastLoop
import CardTransfer.Proofs.Session.Fences
