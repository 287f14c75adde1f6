import Relay.Ruleset.Drs
import Relay.Ruleset.SuffixMatch
import Relay.Ruleset.RoundTrip
import Relay.Cmd.ResolvConf
import Relay.Dns.Hosts
import Relay.Logic.Run
import Relay.Dhcp.V4.Pool
import Relay.Dhcp.V4.Server
import Relay.Dhcp.V4.Uniqueness
import Relay.Dns.Upstream.UdpDelivery
import Relay.Dns.Wire
import Relay.Dns.Upstream.Ecs
import Relay.Storage.Lru
import Relay.Dns.Upstream.Server
import Relay.Dns.Upstream.RoundRobin
import Relay.Dns.Cache
import Relay.Dns.Router
import Relay.Dns.Reply
import Relay.Config.Validate
import Relay.Dns.Freshness
import Relay.Dns.Idn
import Relay.Dns.Preference
import Relay.Dns.FromConfig
import Relay.Runtime.Handle
import Relay.Runtime.Outcome
import Relay.Runtime.HotReload
import Relay.Runtime.FailedReload
import Relay.Web.Auth
import Relay.Web.Sessions
import Relay.Web.Concurrent
import Relay.Ruleset.Adguard
import Relay.Ruleset.Exceptions
import Relay.Ruleset.Buckets
import Relay.Binary.Total
import Relay.Ruleset.CidrMatch
import Relay.Ruleset.LetterCase
import Relay.Ruleset.RegexLines
import Relay.Ruleset.Untrusted
import Relay.Runtime.FirewallRules
import Relay.Runtime.Iptables
import Relay.Dhcp.V4.Serve
import Relay.Storage.Directory
import Relay.Dhcp.V4.Names
import Relay.Dhcp.V4.Reservations
import Relay.Dhcp.V4.Offers
import Relay.Dhcp.V6.Pool
import Relay.Dhcp.V6.Server
import Relay.Dhcp.V6.Uniqueness
import Relay.Binary.Tlv
import Relay.Dhcp.Ra.Builder
import Relay.Binary.Reader
import Relay.Dhcp.Ra.Listener
import Relay.Dhcp.Ra.Learned
import Relay.Dhcp.Ra.Checksum
import Relay.Dns.Sections
import Relay.Dns.Upstream.EcsEdit
import Relay.Dns.Upstream.EcsOption
import Relay.Dns.Upstream.HostPort
import Relay.Dns.Upstream.Bootstrap
import Relay.Dns.Upstream.UdpTable
import Relay.Dns.Upstream.UdpPending
import Relay.Dns.Upstream.UdpRecovery
import Relay.Dns.Selection
import Relay.Dns.Attribution
import Relay.Dns.Blocked
import Relay.Dns.Precedence
import Relay.Dns.Leases
import Relay.Dns.HostNames
import Relay.Ruleset.Counts
import Relay.Ruleset.Losses
import Relay.Ruleset.Mihomo
import Relay.Ruleset.Singbox
import Relay.Ruleset.Formats
import Relay.Ruleset.Accepted
import Relay.Ruleset.Builds
import Relay.Ruleset.Fingerprint
import Relay.Ruleset.OutputFile
import Relay.Config.Yaml
import Relay.Config.Json
import Relay.Config.Serde
import Relay.Logic.Repeats
import Relay.Web.HostsTab
import Relay.Web.CatalogEditor
import Relay.Web.UpstreamsTab
import Relay.Web.Catalogue
import Relay.Web.RuleRuns
import Relay.Web.Committed
import Relay.Web.RulesKept
import Relay.Dns.Upstream.UdpIds
import Relay.Dhcp.V4.Allocation
import Relay.Dhcp.V4.Exhausted
import Relay.Dhcp.Timers
import Relay.Dhcp.V4.Refused
import Relay.Dhcp.V6.Addresses
import Relay.Logic.Merge
import Relay.Logic.Tally
import Relay.Logic.Ordered
import Relay.Stats.Collector
import Relay.Stats.Balance
import Relay.Stats.Latency
import Relay.Binary.Frame
import Relay.Dns.Upstream.DotPool
import Relay.Runtime.Report
import Relay.Dns.Upstream.DotDelivery
import Relay.Web.ConfigApi
import Relay.Ruleset.Wildcards
import Relay.Binary.Stream
import Relay.Dns.Listener
import Relay.Dns.InTurn
import Relay.Dns.Reported
import Relay.Ruleset.Meaning
import Relay.Stats.Lives
import Relay.Storage.Recency
import Relay.Dns.Retention
import Relay.Web.Routes
import Relay.Web.Access
import Relay.Web.PanelCalls
import Relay.Dns.Upstream.HostResolver
import Relay.Dns.Upstream.HostAddresses
import Relay.Dns.Upstream.Doh
import Relay.Dns.Upstream.DohRecycling
import Relay.Dhcp.Ra.Sender
import Relay.Dhcp.Ra.Relayed
import Relay.Dhcp.Services
import Relay.Dhcp.Reloads
import Relay.Cmd.DhcpServers
import Relay.Text.Rfc3339
import Relay.Stats.QueryLog
import Relay.Dns.Upstream.DoqPool
