import EntityGraph.Connection.Script
import EntityGraph.Json.Scalar
import EntityGraph.Proofs.Deferred
import EntityGraph.Proofs.FixedPoint
import EntityGraph.Schema.Registry
import EntityGraph.Session.Deletion
import EntityGraph.Session.Fetch
import EntityGraph.Session.Save
import EntityGraph.Connection.Storage
import EntityGraph.Proofs.Answer
import EntityGraph.Proofs.Cascade
import EntityGraph.Proofs.Reading
import EntityGraph.Proofs.Filling
import EntityGraph.Proofs.RoundTrip
import EntityGraph.Proofs.Ledger
import EntityGraph.Proofs.Recorded
import EntityGraph.Proofs.Refusal
import EntityGraph.Connection.Database
import EntityGraph.Proofs.Agreement
import EntityGraph.Proofs.Scoping
import EntityGraph.Proofs.SelectList
import EntityGraph.Proofs.Lexing
import EntityGraph.Proofs.Tokens
import EntityGraph.Proofs.Naming
import EntityGraph.Proofs.Delivery
import EntityGraph.Proofs.Links
import EntityGraph.Proofs.Linking
import EntityGraph.Proofs.History
import EntityGraph.Proofs.Failing
import EntityGraph.Proofs.Detaching
import EntityGraph.Proofs.StoredKeys
import EntityGraph.Proofs.Indexing
import EntityGraph.Proofs.Retrying
import EntityGraph.Proofs.Kinds
import EntityGraph.Proofs.Fetched
import EntityGraph.Proofs.Denoting
import EntityGraph.Proofs.Removals
import EntityGraph.Proofs.Ambiguity
import EntityGraph.Proofs.Validation
import EntityGraph.Proofs.Embedding
import EntityGraph.Proofs.KeyForms
import EntityGraph.Proofs.Missing
import EntityGraph.Proofs.Undisturbed
import EntityGraph.Proofs.Sharing
import EntityGraph.Proofs.Conditions
import EntityGraph.Proofs.Arithmetic
import EntityGraph.Proofs.Unfolding
import EntityGraph.Proofs.Numbers
import EntityGraph.Proofs.Literals
import EntityGraph.Proofs.Wording
import EntityGraph.Proofs.Mapped
import EntityGraph.Proofs.Alone
