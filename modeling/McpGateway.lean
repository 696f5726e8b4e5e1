import McpGateway.Js.String
import McpGateway.Js.Number
import McpGateway.Js.Json
import McpGateway.Js.Sha256
import McpGateway.Lib.Codec
import McpGateway.Lib.Regex
import McpGateway.Lib.PgLex
import McpGateway.Lib.PgLexLaws
import McpGateway.Lib.PgLexAppend
import McpGateway.Lib.PgLexNames
import McpGateway.Lib.PgLexCompose
import McpGateway.Shared.Errors
import McpGateway.Postgres.Guard
import McpGateway.Postgres.StripLaws
import McpGateway.Postgres.GuardLaws
import McpGateway.Postgres.CallerContext
import McpGateway.Postgres.StatementKept
import McpGateway.Postgres.RowCap
import McpGateway.Js.JsonLaws
import McpGateway.Js.Date
import McpGateway.Js.EventStream
import McpGateway.Shared.Canonical
import McpGateway.Lib.Outcome
import McpGateway.Shared.CanonicalLaws
import McpGateway.Audit.Hash
import McpGateway.Js.NumberText
import McpGateway.Lib.HashChain
import McpGateway.Audit.HashLaws
import McpGateway.Audit.Events
import McpGateway.Lib.Transition
import McpGateway.Audit.Writer
import McpGateway.Audit.WriterLaws
import McpGateway.Audit.AppendedChain
import McpGateway.Audit.Arguments
import McpGateway.Audit.Verifier
import McpGateway.Audit.PagedWalk
import McpGateway.Audit.PagedExactly
import McpGateway.Audit.PagedVerifier
import McpGateway.Audit.Commits
import McpGateway.Audit.LiveVerification
import McpGateway.Audit.Deletion
import McpGateway.Audit.Replacement
import McpGateway.Lib.Reservoir
import McpGateway.RateLimit.TokenBucket
import McpGateway.RateLimit.RateBound
import McpGateway.RateLimit.ClockJumps
import McpGateway.RateLimit.ConfigStore
import McpGateway.RateLimit.Convergence
import McpGateway.Auth.JwksCache
import McpGateway.Auth.KeyRotation
import McpGateway.Runtime.ClientPool
import McpGateway.Runtime.ExclusiveCheckout
import McpGateway.Idp.Directory
import McpGateway.Idp.Tokens
import McpGateway.Idp.Server
import McpGateway.Idp.Narrowing
import McpGateway.Idp.AudienceNamespaces
import McpGateway.Idp.ExchangeChain
import McpGateway.Js.JsonParse
import McpGateway.Js.JsonRoundTrip
import McpGateway.Auth.ExchangeCache
import McpGateway.Auth.MintedTokens
import McpGateway.Auth.MintedForCaller
import McpGateway.Auth.Principal
import McpGateway.Gateway.Mints
import McpGateway.Gateway.NarrowSessions
import McpGateway.Js.Convert
import McpGateway.Lib.Pattern
import McpGateway.Shared.Domain
import McpGateway.Lib.Keyed
import McpGateway.RateLimit.Isolation
import McpGateway.RateLimit.Refusals
import McpGateway.RateLimit.ExactlyOnce
import McpGateway.Shared.Meaning
import McpGateway.Idp.AuthorizationCodes
import McpGateway.Idp.RefreshRotation
import McpGateway.Lib.History
import McpGateway.Idp.Endpoints
import McpGateway.Idp.Runs
import McpGateway.Policy.Schema
import McpGateway.Policy.Evaluator
import McpGateway.Policy.Ordering
import McpGateway.Policy.Malformed
import McpGateway.Policy.Edits
import McpGateway.Policy.Listing
import McpGateway.Policy.Parts
import McpGateway.Policy.Loader
import McpGateway.Js.Sort
import McpGateway.Runtime.Tool
import McpGateway.Salesforce.Dataset
import McpGateway.Salesforce.Soql
import McpGateway.Salesforce.Tools
import McpGateway.Salesforce.Noninterference
import McpGateway.Policy.Baseline
import McpGateway.Salesforce.SoqlLaws
import McpGateway.Salesforce.Grammar
import McpGateway.Salesforce.QueryText
import McpGateway.Salesforce.QueryParts
import McpGateway.Salesforce.Cuts
import McpGateway.Salesforce.RoundTrip
import McpGateway.Salesforce.Like
import McpGateway.Salesforce.Opportunities
import McpGateway.Salesforce.Execution
import McpGateway.Salesforce.CreatedTasks
import McpGateway.Salesforce.PersonalData
import McpGateway.RateLimit.Expiry
import McpGateway.RateLimit.Retries
import McpGateway.RateLimit.RetryDelay
import McpGateway.RateLimit.LimitChange
import McpGateway.RateLimit.Resolution
import McpGateway.Auth.FetchTraffic
import McpGateway.Auth.UsableEntries
import McpGateway.Runtime.EntryLifecycle
import McpGateway.Auth.ForeignEntries
import McpGateway.Idp.PartialRequests
import McpGateway.Gateway.Catalog
import McpGateway.Gateway.Pipeline
import McpGateway.Gateway.Enforcement
import McpGateway.Gateway.LoginState
import McpGateway.Gateway.SingleUseLogin
import McpGateway.Gateway.Stream
import McpGateway.Gateway.LiveView
import McpGateway.Js.CodePoints
import McpGateway.Js.Base64
import McpGateway.Js.UriComponent
import McpGateway.Auth.ClientAuthentication
import McpGateway.Postgres.CatalogNames
import McpGateway.Lib.DbSession
import McpGateway.Postgres.Warehouse
import McpGateway.Postgres.CallerIsolation
import McpGateway.Shared.ObjectGraph
import McpGateway.Shared.GraphEncoding
