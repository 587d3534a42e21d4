import McpFramework.Persistence.Refinement
import McpFramework.Session.Removal
import McpFramework.Session.Serial
import McpFramework.Session.Expiry
import McpFramework.Auth.SessionPrincipal
import McpFramework.Auth.GrantMaterial
import McpFramework.Auth.BindingLifetime
import McpFramework.Auth.BindingRace
import McpFramework.Auth.RefreshRotation
import McpFramework.Auth.ReadBack
import McpFramework.Auth.RefreshOnce
import McpFramework.Auth.TokenCoherence
import McpFramework.Auth.TokenLifetime
import McpFramework.Auth.OpaqueRevocation
import McpFramework.Auth.OpaqueIsolation
import McpFramework.Auth.OpaqueRefresh
import McpFramework.Auth.OpaqueInverse
import McpFramework.Auth.BearerRejection
import McpFramework.Auth.BearerOrder
import McpFramework.Auth.BearerExpiry
import McpFramework.Auth.PurgeSafety
import McpFramework.Auth.BootSafety
import McpFramework.Auth.ClientRedirects
import McpFramework.Auth.Jwks
import McpFramework.Auth.JwksProtocol
import McpFramework.Auth.ProxiedAuthorization
import McpFramework.Auth.ProxiedDelivery
import McpFramework.Capability.Registry
import McpFramework.Capability.RegistryVersion
import McpFramework.Capability.VersionEncoding
import McpFramework.Capability.Handler
import McpFramework.Capability.MetaStripping
import McpFramework.Capability.TaggedUnion
import McpFramework.Capability.ReferenceExpansion
import McpFramework.Capability.DataKeywords
import McpFramework.Lib.Pagination
import McpFramework.Auth.AuthLayer
import McpFramework.Runner.Loopback
import McpFramework.Auth.Registration
import McpFramework.Capability.Resolution
import McpFramework.Runner.LoopbackIdentity
import McpFramework.Runner.LoopbackSessions
import McpFramework.Auth.LoginState
import McpFramework.Auth.TokenRequest
import McpFramework.Metrics.Collector
import McpFramework.Persistence.Exclusion
import McpFramework.Auth.Deadlines
import McpFramework.Auth.BearerComparison
import McpFramework.Capability.ReferenceTermination
import McpFramework.Capability.Peers
import McpFramework.Auth.BindingTable
import McpFramework.Auth.ProxiedForwarding
import McpFramework.Capability.QueryFilter
import McpFramework.Capability.CallProtocol
import McpFramework.Transport.Protocol
import McpFramework.Persistence.Expiration
import McpFramework.Transport.SessionRecovery
import McpFramework.Auth.SuccessPage
import McpFramework.Metrics.Exposition
import McpFramework.Auth.ResourceServer
import McpFramework.Auth.BearerVerdicts
import McpFramework.Capability.ListChanges
import McpFramework.Core.Dialect
import McpFramework.Capability.SchemaMeaning
import McpFramework.Capability.DescriptionAudit
