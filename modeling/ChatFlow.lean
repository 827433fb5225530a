import ChatFlow.Command.Basic
import ChatFlow.Command.Listing
import ChatFlow.Command.Report
import ChatFlow.Document.Content
import ChatFlow.Document.Declare
import ChatFlow.Document.Load
import ChatFlow.Document.Parts
import ChatFlow.Expr.Ast
import ChatFlow.Expr.Builtin
import ChatFlow.Expr.Eval
import ChatFlow.Expr.Fault
import ChatFlow.Expr.Gather
import ChatFlow.Expr.Lexeme
import ChatFlow.Expr.Member
import ChatFlow.Expr.Memo
import ChatFlow.Expr.Namespace
import ChatFlow.Expr.Parse
import ChatFlow.Expr.Term
import ChatFlow.Expr.Token
import ChatFlow.Expr.Typing
import ChatFlow.Flow.Access
import ChatFlow.Flow.Action
import ChatFlow.Flow.Cycle
import ChatFlow.Flow.Event
import ChatFlow.Flow.Fault
import ChatFlow.Flow.Graph
import ChatFlow.Flow.Navigation
import ChatFlow.Flow.Outline
import ChatFlow.Flow.Route
import ChatFlow.Flow.Trigger
import ChatFlow.Form.Basic
import ChatFlow.Form.Lexeme
import ChatFlow.Form.Read
import ChatFlow.Json.Basic
import ChatFlow.Json.Decode
import ChatFlow.Json.Numeric
import ChatFlow.Json.Read
import ChatFlow.Json.Render
import ChatFlow.Main
import ChatFlow.Number.Binary64
import ChatFlow.Number.Decimal
import ChatFlow.Proofs.Document.Addresses
import ChatFlow.Proofs.Document.Blocks
import ChatFlow.Proofs.Document.ChainLimit
import ChatFlow.Proofs.Document.Contents
import ChatFlow.Proofs.Document.Declared
import ChatFlow.Proofs.Document.Denials
import ChatFlow.Proofs.Document.Filling
import ChatFlow.Proofs.Document.Loaded
import ChatFlow.Proofs.Document.Matching
import ChatFlow.Proofs.Document.Order
import ChatFlow.Proofs.Document.Pruned
import ChatFlow.Proofs.Document.Reading
import ChatFlow.Proofs.Document.Shapes
import ChatFlow.Proofs.Document.Validated
import ChatFlow.Proofs.Expr.Bytewise
import ChatFlow.Proofs.Expr.Compiled
import ChatFlow.Proofs.Expr.Concatenation
import ChatFlow.Proofs.Expr.Confined
import ChatFlow.Proofs.Expr.Expectation
import ChatFlow.Proofs.Expr.Flattening
import ChatFlow.Proofs.Expr.Handovers
import ChatFlow.Proofs.Expr.Invocations
import ChatFlow.Proofs.Expr.Kinds
import ChatFlow.Proofs.Expr.LastWrites
import ChatFlow.Proofs.Expr.Memory
import ChatFlow.Proofs.Expr.Mismatches
import ChatFlow.Proofs.Expr.Places
import ChatFlow.Proofs.Expr.Positions
import ChatFlow.Proofs.Expr.Printing
import ChatFlow.Proofs.Expr.Purity
import ChatFlow.Proofs.Expr.Rendering
import ChatFlow.Proofs.Expr.Renumbering
import ChatFlow.Proofs.Expr.Reparsing
import ChatFlow.Proofs.Expr.Retokenizing
import ChatFlow.Proofs.Expr.Saturation
import ChatFlow.Proofs.Expr.Scanning
import ChatFlow.Proofs.Expr.Shifting
import ChatFlow.Proofs.Expr.Slots
import ChatFlow.Proofs.Expr.Tracing
import ChatFlow.Proofs.Expr.Transparency
import ChatFlow.Proofs.Expr.Typing
import ChatFlow.Proofs.Expr.Uncached
import ChatFlow.Proofs.Flow.Addresses
import ChatFlow.Proofs.Flow.Appending
import ChatFlow.Proofs.Flow.Callers
import ChatFlow.Proofs.Flow.Confined
import ChatFlow.Proofs.Flow.Cycles
import ChatFlow.Proofs.Flow.Deferral
import ChatFlow.Proofs.Flow.EntryExit
import ChatFlow.Proofs.Flow.Gates
import ChatFlow.Proofs.Flow.Geometry
import ChatFlow.Proofs.Flow.Indexed
import ChatFlow.Proofs.Flow.Insertions
import ChatFlow.Proofs.Flow.Limits
import ChatFlow.Proofs.Flow.Matching
import ChatFlow.Proofs.Flow.Naming
import ChatFlow.Proofs.Flow.Paths
import ChatFlow.Proofs.Flow.Rearranged
import ChatFlow.Proofs.Flow.Renaming
import ChatFlow.Proofs.Flow.Restarts
import ChatFlow.Proofs.Flow.Returns
import ChatFlow.Proofs.Flow.Routes
import ChatFlow.Proofs.Flow.Scopes
import ChatFlow.Proofs.Flow.Sound
import ChatFlow.Proofs.Flow.Stays
import ChatFlow.Proofs.Flow.Walks
import ChatFlow.Proofs.Flow.WellFormed
import ChatFlow.Proofs.Form.Atoms
import ChatFlow.Proofs.Form.Bytewise
import ChatFlow.Proofs.Form.Rereading
import ChatFlow.Proofs.Number.Comparison
import ChatFlow.Proofs.Number.Rounding
import ChatFlow.Proofs.Results
import ChatFlow.Proofs.Session.AccessSafety
import ChatFlow.Proofs.Session.Attached
import ChatFlow.Proofs.Session.Callers
import ChatFlow.Proofs.Session.Confined
import ChatFlow.Proofs.Session.Deferral
import ChatFlow.Proofs.Session.Evaluation
import ChatFlow.Proofs.Session.Guards
import ChatFlow.Proofs.Session.HandlerLifetime
import ChatFlow.Proofs.Session.Handling
import ChatFlow.Proofs.Session.Hops
import ChatFlow.Proofs.Session.Isolation
import ChatFlow.Proofs.Session.Outcomes
import ChatFlow.Proofs.Session.Plans
import ChatFlow.Proofs.Session.Reachable
import ChatFlow.Proofs.Session.Returns
import ChatFlow.Proofs.Session.Rollback
import ChatFlow.Proofs.Session.Runs
import ChatFlow.Proofs.Text.Boundaries
import ChatFlow.Proofs.Text.Bytes
import ChatFlow.Session.Basic
import ChatFlow.Session.Handle
import ChatFlow.Session.Registry
import ChatFlow.Settings
import ChatFlow.Table
import ChatFlow.Text.Blank
import ChatFlow.Text.Invisible
import ChatFlow.Text.Quoted
import ChatFlow.Text.Split
import ChatFlow.Text.Utf8
import ChatFlow.Value
import ChatFlow.Wire.Expr
import ChatFlow.Wire.Flow
import ChatFlow.Wire.SettingsFile
import ChatFlow.Wire.Value
