import Saffui.Foundation.SortedMap
import Saffui.Foundation.Rows
import Saffui.Foundation.ReadCommitted
import Saffui.Foundation.RelyGuarantee
import Saffui.Foundation.Traces
import Saffui.Foundation.Logs
import Saffui.Foundation.History
import Saffui.Foundation.Units
import Saffui.Foundation.Runs
import Saffui.Ports
import Saffui.Text
import Saffui.Json
import Saffui.Authz.Relations.Model
import Saffui.Authz.Relations.Denotation
import Saffui.Authz.Relations.Check
import Saffui.Authz.Relations.CheckSound
import Saffui.Authz.Relations.Limits
import Saffui.Authz.Relations.Complete
import Saffui.Authz.Relations.Schema
import Saffui.Authz.Relations.Grammar
import Saffui.Authz.Relations.SchemaLex
import Saffui.Authz.Relations.SchemaParse
import Saffui.Authz.Relations.SchemaCompile
import Saffui.Authz.Relations.SchemaMeaning
import Saffui.Authz.Relations.Loops
import Saffui.Authz.Relations.Stored
import Saffui.Authz.Policy
import Saffui.Authz.Store
import Saffui.Authz.Manage
import Saffui.Authz.Definitions
import Saffui.Authz.ManageSound
import Saffui.Authz.PolicySound
import Saffui.Authz.SchemaSound
import Saffui.Authz.Runs
import Saffui.Login.Session
import Saffui.Tokens
import Saffui.Authz.Decide
import Saffui.Authz.DecideSound
import Saffui.Authz.Noninterference
import Saffui.Authz.Amid
import Saffui.Audit.Chain
import Saffui.Audit.Append
import Saffui.Oidc.Data
import Saffui.Oidc.Store
import Saffui.Oidc.Login
import Saffui.Oidc.Token
import Saffui.Oidc.Authorize
import Saffui.Oidc.Calls
import Saffui.Oidc.Backed
import Saffui.Oidc.BackedSound
import Saffui.Oidc.Statements
import Saffui.Oidc.Families
import Saffui.Oidc.Replays
import Saffui.Oidc.Withdrawals
import Saffui.Oidc.Requests
import Saffui.Oidc.Factors
import Saffui.Oidc.Codes
import Saffui.Oidc.Keys
import Saffui.Oidc.KeyProofs
import Saffui.Migrate.Plan
import Saffui.Migrate.Run
import Saffui.Migrate.History
import Saffui.Foundation.Base64
import Saffui.Tokens.Mint
import Saffui.Tokens.Realms
import Saffui.Authz.Admin
import Saffui.Authz.AdminRuns
import Saffui.Foundation.Kleene
import Saffui.JsonText
import Saffui.Authz.Weighing
import Saffui.Audit.Canonical
import Saffui.Authz.Storable
import Saffui.Foundation.NearestEven
import Saffui.Authz.Operators
import Saffui.Foundation.Percent
import Saffui.Redirects
import Saffui.Foundation.Sql
import Saffui.Foundation.SqlText
import Saffui.Store.Query
import Saffui.Store.QueryText
import Saffui.Store.QueryScope
import Saffui.Authz.RoleClaims
import Saffui.Foundation.Tallies
import Saffui.Foundation.Alone
import Saffui.Oidc.Brake
import Saffui.Oidc.BrakeSound
import Saffui.Foundation.Bytes
import Saffui.Foundation.Escapes
import Saffui.Crypto.X509
import Saffui.Crypto.Otp
import Saffui.Utf8
import Saffui.Foundation.Framing
import Saffui.Oidc.Digests
import Saffui.Foundation.PaddedBase64
import Saffui.Server.ClientCredentials
import Saffui.Crypto.Password
import Saffui.Crypto.Phc
import Saffui.LowerCase
import Saffui.Login.Names
import Saffui.Foundation.IdealAead
import Saffui.Crypto.Envelope
import Saffui.Server.Addresses
import Saffui.Server.CallerAddress
import Saffui.Crypto.Kdf
import Saffui.Decimal
import Saffui.Login.DeviceMarks
import Saffui.Foundation.Counts
import Saffui.Shares
import Saffui.Authz.Relations.Machine
import Saffui.Authz.Relations.SchemaPositions
import Saffui.Authz.Relations.SchemaRecovery
import Saffui.Server.PublicOrigin
import Saffui.SdJwt.Disclosure
import Saffui.SdJwt.Unfolding
import Saffui.SdJwt.UnfoldingSound
import Saffui.SdJwt.StandsFor
import Saffui.SdJwt.Accepted
import Saffui.SdJwt.Conceal
import Saffui.SdJwt.Veil
import Saffui.SdJwt.Revealed
import Saffui.SdJwt.Sealing
import Saffui.SdJwt.Nesting
import Saffui.SdJwt.ConcealSound
import Saffui.SdJwt.Issued
import Saffui.SdJwt.Integers
import Saffui.SdJwt.RoundTrip
import Saffui.SdJwt.Presenter
import Saffui.Foundation.Doubles
import Saffui.SdJwt.Jws
import Saffui.SdJwt.Presentation
import Saffui.SdJwt.Cutting
import Saffui.SdJwt.Compact
import Saffui.SdJwt.KeyBinding
import Saffui.SdJwt.Exchange
import Saffui.Tokens.Introspect
