import SentirumLb.Lib.AssocMap
import SentirumLb.Lib.WeakMap
import SentirumLb.Lib.Text
import SentirumLb.Lib.Lists
import SentirumLb.Lib.Headers
import SentirumLb.Lib.Runs
import SentirumLb.Lib.Atomic
import SentirumLb.Lib.Serialized
import SentirumLb.Lib.WindowLimit
import SentirumLb.Net.IpAddr
import SentirumLb.Net.Cidr
import SentirumLb.Route.Definition
import SentirumLb.Route.Target
import SentirumLb.Route.Weights
import SentirumLb.Route.Table
import SentirumLb.Route.TableInvariant
import SentirumLb.Route.Lookup
import SentirumLb.Route.Contents
import SentirumLb.Route.TargetStats
import SentirumLb.Route.Picker
import SentirumLb.Route.Interleave
import SentirumLb.Route.RoundRobin
import SentirumLb.Route.Registry
import SentirumLb.Route.Priority
import SentirumLb.Breaker.Basic
import SentirumLb.Breaker.Accesses
import SentirumLb.Breaker.Transitions
import SentirumLb.Breaker.Sequential
import SentirumLb.Breaker.Requests
import SentirumLb.Breaker.Probes
import SentirumLb.Breaker.Admissions
import SentirumLb.Breaker.Representation
import SentirumLb.Breaker.Recovery
import SentirumLb.Route.Rebuilds
import SentirumLb.Route.BreakerConfig
import SentirumLb.Route.Rotation
import SentirumLb.Route.DnsCache
import SentirumLb.Route.Resolve
import SentirumLb.Proxy.LookupTarget
import SentirumLb.Proxy.Slots
import SentirumLb.Proxy.SlotConservation
import SentirumLb.Proxy.Feedback
import SentirumLb.Consul.Checks
import SentirumLb.Consul.ServiceMonitor
import SentirumLb.Admin.Auth
import SentirumLb.Admin.Server
import SentirumLb.Admin.LoginLimit
import SentirumLb.Admin.Sessions
import SentirumLb.Config.Basic
import SentirumLb.Config.Validation
import SentirumLb.Admin.ConfigHandler
import SentirumLb.Route.DnsFreshness
import SentirumLb.Proxy.Forwarded
import SentirumLb.Tls.CertSnapshot
import SentirumLb.Tls.CertStore
import SentirumLb.Tls.Watcher
import SentirumLb.Proxy.ClientCert
import SentirumLb.Route.TcpRoutes
import SentirumLb.Proxy.TcpLookup
import SentirumLb.Proxy.HealthCheck
import SentirumLb.Proxy.ProbeVerdict
import SentirumLb.Lib.Metering
import SentirumLb.Proxy.RateLimit
import SentirumLb.Proxy.TargetRateLimit
import SentirumLb.Breaker.FullWindow
import SentirumLb.Config.Limits
import SentirumLb.Lib.Apportion
import SentirumLb.Route.Smooth
import SentirumLb.Lib.Slices
import SentirumLb.Proxy.HostHeader
import SentirumLb.Breaker.LookOnly
import SentirumLb.Lib.Lines
import SentirumLb.Route.Parser
import SentirumLb.Route.WeightBounds
import SentirumLb.Consul.KvRoutes
import SentirumLb.Route.Deletion
import SentirumLb.Breaker.Changes
import SentirumLb.Breaker.Opening
import SentirumLb.Breaker.History
import SentirumLb.Proxy.SelectPeer
import SentirumLb.Consul.Aggregation
import SentirumLb.Consul.Published
import SentirumLb.Route.Weighting
import SentirumLb.Route.Duplicates
import SentirumLb.Route.AddOnly
import SentirumLb.Route.HeaderOption
import SentirumLb.Proxy.Drained
import SentirumLb.Route.RiseFall
import SentirumLb.Route.DnsEviction
import SentirumLb.Lib.Utf8
import SentirumLb.Lib.Wire
import SentirumLb.Proxy.ServerName
import SentirumLb.Proxy.ClientHello
import SentirumLb.Net.AddrText
import SentirumLb.Proxy.TcpProxy
import SentirumLb.Route.TcpPorts
import SentirumLb.Tls.Select
import SentirumLb.Net.Embedding
import SentirumLb.Route.ReservedRanges
import SentirumLb.Proxy.Destination
import SentirumLb.Route.Tokenize
import SentirumLb.Route.ParsedCommands
import SentirumLb.Route.WeightLines
import SentirumLb.Lib.Words
import SentirumLb.Route.AddGrammar
import SentirumLb.Proxy.Authority
import SentirumLb.Lib.UrlSyntax
import SentirumLb.Route.StandardUrls
import SentirumLb.Consul.Dialled
import SentirumLb.Lib.RingBuffer
import SentirumLb.Admin.Logs
import SentirumLb.Lib.Histogram
import SentirumLb.Metrics.Prometheus
import SentirumLb.Net.CidrBits
import SentirumLb.Lib.Fifo
import SentirumLb.Proxy.IdentityCache
import SentirumLb.Route.LeastConnections
import SentirumLb.Lib.Numerals
import SentirumLb.Config.Durations
import SentirumLb.Proxy.HostPort
import SentirumLb.Admin.Tokens
import SentirumLb.Proxy.Rewrite
import SentirumLb.Route.RatePolicies
import SentirumLb.Proxy.RefillDrift
import SentirumLb.Lib.Occurrences
import SentirumLb.Tls.PemBlocks
import SentirumLb.Tls.Bundle
import SentirumLb.Lib.Latest
import SentirumLb.Tls.ClientCa
import SentirumLb.Tls.ClientAuth
import SentirumLb.Tls.Startup
import SentirumLb.Lib.Mailbox
import SentirumLb.Consul.Pipeline
import SentirumLb.Lib.Backoff
import SentirumLb.Consul.Client
import SentirumLb.Tls.Refresh
import SentirumLb.Admin.MetricsStream
import SentirumLb.Lib.Exposition
import SentirumLb.Metrics.Targets
import SentirumLb.Lib.Recent
import SentirumLb.Admin.TopologyFlow
import SentirumLb.Proxy.TcpListeners
import SentirumLb.Admin.Trust
import SentirumLb.Admin.Exposure
import SentirumLb.Proxy.HealthLoop
import SentirumLb.Proxy.UpstreamRequest
