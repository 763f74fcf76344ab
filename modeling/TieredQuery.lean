import TieredQuery.Gateway.Handler
import TieredQuery.OneShot
import TieredQuery.Proofs.Cache.Revision
import TieredQuery.Proofs.Traffic.Basic
import TieredQuery.Proofs.Traffic.FirstArtifact
import TieredQuery.Proofs.Dispatch.PureEngine
import TieredQuery.Proofs.Traffic.Transparency
import TieredQuery.Proofs.Cache.Retention
import TieredQuery.Proofs.Dispatch.Undisturbed
import TieredQuery.Proofs.Session.Lifecycle
import TieredQuery.Proofs.Traffic.Occurrences
import TieredQuery.Proofs.Traffic.EntryInvariant
import TieredQuery.Proofs.Cache.History
import TieredQuery.Proofs.Cache.RecencyOrder
import TieredQuery.Proofs.Cache.ReadLaw
import TieredQuery.Proofs.Traffic.Provenance
import TieredQuery.Proofs.Traffic.RememberedFailure
import TieredQuery.Proofs.Cache.Room
import TieredQuery.Proofs.Cache.Capacity
import TieredQuery.Proofs.Session.Turns
import TieredQuery.Proofs.Session.Separation
import TieredQuery.Proofs.Session.Epochs
import TieredQuery.Proofs.Dispatch.Frame
import TieredQuery.Proofs.Traffic.Accounting
import TieredQuery.Proofs.Decimal.ReadBack
import TieredQuery.Proofs.Json.NumberText
import TieredQuery.Proofs.Json.Unambiguous
import TieredQuery.Proofs.Dictionary
import TieredQuery.Proofs.Gateway.Body
import TieredQuery.Proofs.Gateway.Handling
import TieredQuery.Proofs.Traffic.Completions
import TieredQuery.Proofs.Dispatch.Uncached
import TieredQuery.Proofs.Session.Thrashing
import TieredQuery.Proofs.Json.RoundTrip
import TieredQuery.Proofs.Json.Records
import TieredQuery.Proofs.Gateway.Posting
import TieredQuery.Proofs.Cache.Departures
import TieredQuery.Proofs.Cache.Statistics
import TieredQuery.Proofs.Json.Decoded
import TieredQuery.Proofs.Gateway.Responses
