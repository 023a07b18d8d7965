import BridgeMcp.Security.KeywordFilter
import BridgeMcp.Security.Continuation
import BridgeMcp.Output.Paging
import BridgeMcp.Output.Eviction
import BridgeMcp.Session.Limit
import BridgeMcp.Session.Audit
import BridgeMcp.Session.Isolation
import BridgeMcp.Recording.FailedWrites
import BridgeMcp.Recording.Sessions
import BridgeMcp.Security.KnownSecrets
import BridgeMcp.Ldap.Ldif
import BridgeMcp.Ldap.Server
import BridgeMcp.Database.OptionFile
import BridgeMcp.Database.PgPass
import BridgeMcp.Cloud.AwsWords
import BridgeMcp.Mcp.GrantChain
import BridgeMcp.Database.QueryVisibility
import BridgeMcp.Mcp.StateText
import BridgeMcp.Mcp.HttpPost
import BridgeMcp.Mcp.SessionAnswers
import BridgeMcp.Mcp.Listening
import BridgeMcp.Mcp.History
import BridgeMcp.Kubernetes.Protected
import BridgeMcp.Kubernetes.LocalPathSafety
import BridgeMcp.HereDocs
import BridgeMcp.ConfigWatcher
import BridgeMcp.Connections.PoolCap
import BridgeMcp.Connections.WinRmPool
import BridgeMcp.Windows.Registry
import BridgeMcp.KeyDistribution
import BridgeMcp.Backup
import BridgeMcp.Connections.SshConfig
import BridgeMcp.Tasks.Expiry
import BridgeMcp.Security.AuditOperation
import BridgeMcp.Session.ExitGuard
import BridgeMcp.Mcp.StandardTool
import BridgeMcp.Storage
import BridgeMcp.Telnet
import BridgeMcp.Runbook
import BridgeMcp.Output.Columns
import BridgeMcp.Security.DetectionSet
import BridgeMcp.Security.Entropy
import BridgeMcp.Security.RateLimiter
import BridgeMcp.Output.JqFilter
import BridgeMcp.Connections.CommandOutput
import BridgeMcp.Output.FleetDiff
import BridgeMcp.Connections.ExecCancel
import BridgeMcp.FileOps
import BridgeMcp.Firewall
import BridgeMcp.PidFile
import BridgeMcp.Tunnel
