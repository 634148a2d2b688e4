import GraphQL.Check.Run
import GraphQL.Document.Build
import GraphQL.Document.Decoding
import GraphQL.Document.Encoding
import GraphQL.Document.Equality
import GraphQL.Document.Selecting
import GraphQL.Fragment.Report
import GraphQL.Json.Printer
import GraphQL.Json.Reader
import GraphQL.Json.Record
import GraphQL.Main
import GraphQL.Schema.Decoding
import GraphQL.Schema.Encoding
import GraphQL.Subscription.Channel
import GraphQL.Subscription.Session
import GraphQL.Text.Blank
import GraphQL.Text.Quoted
import GraphQL.Text.Split
import GraphQL.Validation.Basic
import GraphQL.Proofs.Avoiding
import GraphQL.Proofs.Validation.Reachable
import GraphQL.Proofs.Validation.Diagnostics
import GraphQL.Proofs.Fragment.Expansion
import GraphQL.Proofs.Validation.Expansion
import GraphQL.Proofs.Document.Place
import GraphQL.Proofs.Fragment.Cycle
import GraphQL.Proofs.Json.Record
import GraphQL.Proofs.Number.Conversion
import GraphQL.Proofs.Subscription.Conformance
import GraphQL.Proofs.Subscription.Preparation
import GraphQL.Proofs.Fragment.Occurrence
import GraphQL.Proofs.Fragment.Problems
import GraphQL.Proofs.Fragment.PathWalk
import GraphQL.Proofs.Fragment.CycleWalk
import GraphQL.Proofs.Validation.Fixpoint
import GraphQL.Proofs.Subscription.Conversation
import GraphQL.Proofs.Validation.Skipped
import GraphQL.Proofs.Keyed
import GraphQL.Proofs.Schema.Builtins
import GraphQL.Proofs.Schema.Growth
import GraphQL.Proofs.Validation.Growth
import GraphQL.Proofs.Json.Shape
import GraphQL.Proofs.Document.RoundTrip
import GraphQL.Proofs.Schema.TypeRef
import GraphQL.Proofs.Schema.Written
import GraphQL.Proofs.Schema.RoundTrip
import GraphQL.Proofs.Subscription.Trace
import GraphQL.Proofs.Subscription.Cancellation
import GraphQL.Proofs.Subscription.Failure
import GraphQL.Proofs.Validation.Identity
import GraphQL.Proofs.Document.Relabelling
import GraphQL.Proofs.Fragment.Relabelling
import GraphQL.Proofs.Validation.Relabelling
import GraphQL.Proofs.Subscription.Relabelling
import GraphQL.Proofs.Schema.TypeGrammar
import GraphQL.Proofs.Validation.Composition
import GraphQL.Proofs.Subscription.RootFields
import GraphQL.Proofs.Subscription.SingleField
import GraphQL.Proofs.Subscription.Merging
import GraphQL.Proofs.Subscription.Binding
import GraphQL.Proofs.Validation.Arguments
import GraphQL.Proofs.Validation.Acceptance
import GraphQL.Proofs.Document.Widened
import GraphQL.Proofs.Validation.WidenedPlaces
import GraphQL.Proofs.Number.Interval
import GraphQL.Proofs.Number.Written
import GraphQL.Proofs.Json.Text
import GraphQL.Proofs.Subscription.FrameText
import GraphQL.Proofs.Subscription.Variables
import GraphQL.Proofs.Subscription.Delivery
import GraphQL.Proofs.Validation.PathWalk
