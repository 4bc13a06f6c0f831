import Nodeglow.Agent.Updater.Trust
import Nodeglow.Backend.Auth.LoginLock
import Nodeglow.Backend.ClickHouse.DeltaRuns
import Nodeglow.Backend.Ha.LeaderElection
import Nodeglow.Backend.Incidents.MultiHostDown
import Nodeglow.Backend.Incidents.StreakLaw
import Nodeglow.Backend.Incidents.Escalation
import Nodeglow.Backend.Incidents.SelfCheck
import Nodeglow.Backend.Incidents.AlertMirror
import Nodeglow.Backend.AlertRules.Fields
import Nodeglow.Backend.AlertRules.ConsecutiveMatches
import Nodeglow.Backend.AlertRules.IncidentLifetime
import Nodeglow.Backend.Secrets.CryptoShred
import Nodeglow.Backend.Secrets.KeyLifecycle
import Nodeglow.Backend.RateLimit.Limiter
import Nodeglow.Backend.Jobs.FairShareFairness
import Nodeglow.Backend.Jobs.TenantRunner
import Nodeglow.Backend.Jobs.TenantCadence
import Nodeglow.Backend.Jobs.TenantSlots
import Nodeglow.Backend.Tenancy.WriteIsolation
import Nodeglow.Backend.Tenancy.RlsSettings
import Nodeglow.Backend.Tenancy.DeletionGrace
import Nodeglow.Backend.Tenancy.PurgeRuns
import Nodeglow.Backend.Tenancy.Revalidation
import Nodeglow.Backend.Tenancy.SupportGrants
import Nodeglow.Backend.Users.LastAdmin
import Nodeglow.Backend.Users.OperatorMirror
import Nodeglow.Backend.Users.OwnPassword
import Nodeglow.Sidecar.Precedence
import Nodeglow.Sidecar.UpdateStatus
import Nodeglow.Sidecar.VerifiedImages
import Nodeglow.Backend.Syslog.HostIsolation
import Nodeglow.Backend.Syslog.BufferConservation
import Nodeglow.Backend.Licensing.RoundTrip
import Nodeglow.Backend.Snmp.Complete
import Nodeglow.Backend.NetSafety.GuardedClient
import Nodeglow.Backend.LogIntelligence.SampleCounts
import Nodeglow.Backend.LogIntelligence.TemplateCounts
import Nodeglow.Backend.Pings.OutageNotices
import Nodeglow.Backend.Pings.PortErrors
import Nodeglow.Backend.Dashboard.IncidentTrend
import Nodeglow.Backend.Sampling.SampleIndices
import Nodeglow.Backend.Changes.Walk
import Nodeglow.Backend.AgentServices.MaintenanceSilence
import Nodeglow.Backend.Integrations.NutClient
import Nodeglow.Backend.SubnetScanner.Coverage
import Nodeglow.Backend.HttpChecks.Storage
import Nodeglow.Backend.Integrations.ClusterNames
import Nodeglow.Backend.Integrations.GuestsApart
import Nodeglow.Backend.Integrations.EditInstance
import Nodeglow.Backend.Integrations.ConfigRevision
import Nodeglow.Backend.BackupMonitor.NewestRun
import Nodeglow.Backend.Notifications.Cooldown
import Nodeglow.Backend.Tenancy.PlanRetention
import Nodeglow.Backend.Backup.FailedRestore
import Nodeglow.Backend.Topology.Cascade
import Nodeglow.Agent.SyslogRelay.FramerBounds
import Nodeglow.Agent.SyslogRelay.Oversized
import Nodeglow.Agent.SyslogRelay.Requeue
import Nodeglow.Backend.Maintenance.NextOccurrence
import Nodeglow.Backend.AiRedaction.Stream
import Nodeglow.Backend.AiRedaction.RoundTrip
import Nodeglow.Backend.Syslog.Priorities
import Nodeglow.Backend.Syslog.Timestamp3164
import Nodeglow.Backend.LogIntelligence.PrecursorWindows
import Nodeglow.Backend.LogIntelligence.RateEstimate
import Nodeglow.Backend.AgentServices.StreakFold
import Nodeglow.Probes.PendingBuffer
import Nodeglow.Backend.Hosts.HostState
import Nodeglow.Backend.Agents.Enrolment
