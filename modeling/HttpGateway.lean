import HttpGateway.Cache
import HttpGateway.Expression
import HttpGateway.Forwarding
import HttpGateway.Gateway
import HttpGateway.Pattern.Basic
import HttpGateway.Pattern.Fault
import HttpGateway.Pattern.Matching
import HttpGateway.Pattern.Regex
import HttpGateway.Pattern.Visit
import HttpGateway.Pattern.Written
import HttpGateway.Request.Basic
import HttpGateway.Request.Host
import HttpGateway.Request.TraceId
import HttpGateway.Route.Basic
import HttpGateway.Route.Snapshot
import HttpGateway.Session
import HttpGateway.Settings.Basic
import HttpGateway.Settings.Codec
import HttpGateway.Signal
import HttpGateway.Text.Basic
import HttpGateway.Text.CaseFold
import HttpGateway.Text.NameTree
import HttpGateway.Proofs.Cache.Runs
import HttpGateway.Proofs.Expression.Boundaries
import HttpGateway.Proofs.Expression.Compiled
import HttpGateway.Proofs.Expression.Concatenation
import HttpGateway.Proofs.Expression.Evaluation
import HttpGateway.Proofs.Expression.References
import HttpGateway.Proofs.Forwarding.Timeout
import HttpGateway.Proofs.Forwarding.Uri
import HttpGateway.Proofs.Metrics
import HttpGateway.Proofs.Pattern.Canonical
import HttpGateway.Proofs.Pattern.CaseInsensitive
import HttpGateway.Proofs.Pattern.Flat
import HttpGateway.Proofs.Pattern.Instances
import HttpGateway.Proofs.Pattern.Instantiation
import HttpGateway.Proofs.Pattern.LeadingSlash
import HttpGateway.Proofs.Pattern.Matches
import HttpGateway.Proofs.Pattern.Offsets
import HttpGateway.Proofs.Pattern.Rebuild
import HttpGateway.Proofs.Pattern.Refusals
import HttpGateway.Proofs.Pattern.RegexSearch
import HttpGateway.Proofs.Pattern.RegexText
import HttpGateway.Proofs.Pattern.RoundTrip
import HttpGateway.Proofs.Pattern.Rules
import HttpGateway.Proofs.Pattern.Search
import HttpGateway.Proofs.Pattern.Shape
import HttpGateway.Proofs.Pattern.Splits
import HttpGateway.Proofs.Pattern.Tables
import HttpGateway.Proofs.Pattern.Tokens
import HttpGateway.Proofs.Pattern.Walk
import HttpGateway.Proofs.Pattern.Yields
import HttpGateway.Proofs.Request.Host
import HttpGateway.Proofs.Route.CanonicalMeaning
import HttpGateway.Proofs.Route.CompileLimits
import HttpGateway.Proofs.Route.Loading
import HttpGateway.Proofs.Route.Readiness
import HttpGateway.Proofs.Route.Resolving
import HttpGateway.Proofs.Route.Shadowing
import HttpGateway.Proofs.Session.CacheLimits
import HttpGateway.Proofs.Session.Reloading
import HttpGateway.Proofs.Session.Resolving
import HttpGateway.Proofs.Session.Transparency
import HttpGateway.Proofs.Session.Variables
import HttpGateway.Proofs.Settings.RoundTrip
import HttpGateway.Proofs.Text.Registrations
