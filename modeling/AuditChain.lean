import AuditChain.Append
import AuditChain.Bench
import AuditChain.Broker
import AuditChain.CommandLine.Arguments
import AuditChain.CommandLine.Execution
import AuditChain.CommandLine.Help
import AuditChain.Config
import AuditChain.Consumer
import AuditChain.Decimal.Nearest
import AuditChain.Decimal.Shortest
import AuditChain.Decimal.Wide
import AuditChain.Entry
import AuditChain.Error
import AuditChain.Event
import AuditChain.Journal
import AuditChain.Json.Access
import AuditChain.Json.Decoder
import AuditChain.Json.Ledger
import AuditChain.Json.Number
import AuditChain.Json.Quoted
import AuditChain.Json.Value
import AuditChain.Ledger
import AuditChain.Main
import AuditChain.Path
import AuditChain.Program
import AuditChain.Proofs.Chain
import AuditChain.Proofs.Encoding
import AuditChain.Proofs.Interleaving
import AuditChain.Proofs.Store.Lawful
import AuditChain.Query
import AuditChain.Retry
import AuditChain.Sha256
import AuditChain.Shop.Catalog
import AuditChain.Shop.Drill
import AuditChain.Shop.Lifecycle
import AuditChain.Shop.Storm
import AuditChain.Shop.Writers
import AuditChain.Store.Access
import AuditChain.Store.Backing
import AuditChain.Store.Basic
import AuditChain.Store.Connection
import AuditChain.Store.LedgerFile
import AuditChain.Store.LedgerName
import AuditChain.Store.Memory
import AuditChain.Store.Numeral
import AuditChain.Store.Ordered
import AuditChain.Store.Scripted
import AuditChain.Store.Table
import AuditChain.Store.TableText
import AuditChain.Text.Blank
import AuditChain.Text.Case
import AuditChain.Text.Digits
import AuditChain.Text.Hex
import AuditChain.Text.Literal
import AuditChain.Text.Search
import AuditChain.Text.Unseen
import AuditChain.Text.Utf8
import AuditChain.Time.Date
import AuditChain.Time.Text
import AuditChain.Time.Timestamp
import AuditChain.Toml.Document
import AuditChain.Toml.Scalar
import AuditChain.Toml.Value
import AuditChain.Verify.Cursor
import AuditChain.Verify.Report
import AuditChain.Verify.Verifier
import AuditChain.Workspace
import AuditChain.Workspace.Beside
import AuditChain.Workspace.Opening
import AuditChain.Proofs.Store.Memory
import AuditChain.Proofs.Append.NoFork
import AuditChain.Proofs.Append.Agreement
import AuditChain.Proofs.Broker
import AuditChain.Proofs.Consumer.Protocol
import AuditChain.Proofs.Consumer.Site
import AuditChain.Proofs.Consumer.NothingLost
import AuditChain.Proofs.Store.Window
import AuditChain.Proofs.Verify.SinglePass
import AuditChain.Proofs.Verify.Exact
import AuditChain.Proofs.Verify.Commitment
import AuditChain.Proofs.Verify.Tampering
import AuditChain.Proofs.Verify.Undecodable
import AuditChain.Proofs.Verify.Rewriting
import AuditChain.Proofs.Verify.Illegible
import AuditChain.Proofs.Verify.Certification
import AuditChain.Proofs.Text.Digits
import AuditChain.Proofs.Text.Octets
import AuditChain.Proofs.Time.ReadBack
import AuditChain.Proofs.Store.Rows
import AuditChain.Proofs.Store.Table
import AuditChain.Proofs.Store.RoundTrip
import AuditChain.Proofs.Store.Unaltered
import AuditChain.Proofs.Append.Engines
import AuditChain.Proofs.Store.Interchange
import AuditChain.Proofs.Append.Faults
import AuditChain.Proofs.Append.Spending
import AuditChain.Proofs.Append.Overtaking
import AuditChain.Proofs.Append.Budget
import AuditChain.Proofs.Readers.Growth
import AuditChain.Proofs.Readers.Undisturbed
import AuditChain.Proofs.Readers.Export
import AuditChain.Proofs.Readers.Restoring
import AuditChain.Proofs.Readers.Paging
import AuditChain.Proofs.Json.Scalars
import AuditChain.Proofs.Json.Decoders
import AuditChain.Proofs.Json.Records
import AuditChain.Proofs.Json.Ledger
import AuditChain.Proofs.Store.Loading
import AuditChain.Proofs.Verify.Offline
import AuditChain.Proofs.Append.Effect
import AuditChain.Proofs.Append.Counters
import AuditChain.Proofs.Append.Passes
import AuditChain.Proofs.Append.Alone
import AuditChain.Proofs.Consumer.Draining
import AuditChain.Proofs.Broker.Conservation
import AuditChain.Proofs.Consumer.Reconciliation
import AuditChain.Proofs.Consumer.Termination
import AuditChain.Proofs.Readers.Beyond
import AuditChain.Proofs.Time.Parts
import AuditChain.Proofs.Append.Backoff
