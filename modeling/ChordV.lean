import ChordV.Lib.Program
import ChordV.Lib.Table
import ChordV.Lib.Fallible
import ChordV.Lib.Json
import ChordV.Lib.Machine
import ChordV.Lib.Js
import ChordV.Lib.SemVer
import ChordV.Lib.SemVerOrder
import ChordV.Lib.Frames
import ChordV.Lib.IpAddress
import ChordV.Lib.Buffer
import ChordV.Lib.Crc32
import ChordV.Agent.Protocol
import ChordV.Agent.Store
import ChordV.Agent.Ledger
import ChordV.Agent.Xray
import ChordV.Agent.Inbound
import ChordV.Agent.Processor
import ChordV.Agent.Reconcile
import ChordV.Agent.Commands
import ChordV.Agent.Runner
import ChordV.Agent.Records
import ChordV.Agent.QuietRuns
import ChordV.Agent.Rows
import ChordV.Agent.Revocation
import ChordV.Agent.RevokedRuns
import ChordV.Agent.Durability
import ChordV.Agent.Evidence
import ChordV.Agent.NoOrphan
import ChordV.Agent.PanelSafety
import ChordV.Agent.Outbox
import ChordV.Agent.Sequences
import ChordV.Agent.Snapshots
import ChordV.Agent.Channels
import ChordV.Agent.Restoration
import ChordV.Agent.Epochs
import ChordV.Agent.Fetches
import ChordV.Agent.Floors
import ChordV.Agent.Tombstones
import ChordV.Agent.Handoff
import ChordV.Agent.Placeholders
import ChordV.Agent.Metered
import ChordV.Agent.Merge
import ChordV.Agent.Conservation
import ChordV.Agent.LetterCase
import ChordV.Lib.Disk
import ChordV.Agent.Durable
import ChordV.Agent.DurableRuns
import ChordV.Agent.Identity
import ChordV.Agent.IdentityReset
import ChordV.Agent.EventStream
import ChordV.NodeAgent.Store
import ChordV.Api.Model
import ChordV.Api.Metering
import ChordV.Api.Ingest
import ChordV.Api.Provisioning
import ChordV.Api.Runs
import ChordV.Api.Frames
import ChordV.Api.Acks
import ChordV.Api.Accounting
import ChordV.Api.ExactlyOnce
import ChordV.Api.Effects
import ChordV.Api.Subscriptions
import ChordV.Api.OneOwner
import ChordV.Api.Access
import ChordV.Api.Revocations
import ChordV.Api.Inbounds
import ChordV.Api.Deployments
import ChordV.Api.Baseline
import ChordV.Api.Queue
import ChordV.Api.Settlement
import ChordV.Api.Locks
import ChordV.Api.Billing
import ChordV.Api.Scans
import ChordV.Api.Progress
import ChordV.Api.Sessions
import ChordV.Api.Rotations
import ChordV.Api.RevocationJobs
import ChordV.Api.RevocationRequests
import ChordV.Api.Leases
import ChordV.Api.SessionLimit
import ChordV.Api.ExhaustedCommands
import ChordV.Api.Supersession
import ChordV.Api.Resolution
import ChordV.Api.AgentRegister
import ChordV.Api.Onboarding
import ChordV.Api.PublicAddress
import ChordV.Api.RemoteUrls
import ChordV.Api.Zip
import ChordV.Api.Versions
import ChordV.Api.VersionPrecedence
import ChordV.Api.ManifestFloor
import ChordV.Api.PhaseWrites
import ChordV.Api.LocalLocks
import ChordV.Api.PingWrites
import ChordV.Api.PresenceStreams
import ChordV.Api.RuntimeVersions
import ChordV.Api.RuntimeVersionFiles
import ChordV.Api.RuntimeVersionSteps
import ChordV.Api.RuntimeVersionRuns
import ChordV.Api.Releases
import ChordV.Api.ReleaseSteps
import ChordV.Api.Publication
import ChordV.Api.StableLine
import ChordV.Api.ClientUpdates
import ChordV.Api.TrafficBytes
import ChordV.Api.TeamUsage
import ChordV.Api.TeamUsageRuns
import ChordV.Api.BatchArithmetic
import ChordV.Api.IdleSamples
import ChordV.NodeAgent.Parity
import ChordV.Api.TrafficText
import ChordV.Api.Teams
import ChordV.Api.TeamOwner
import ChordV.Api.Retention
import ChordV.Api.RuntimeEvents
import ChordV.Api.RuntimeEventRuns
import ChordV.Api.UnreadPushes
import ChordV.Api.UnreadLog
import ChordV.Api.UnreadOrder
import ChordV.Helper.Apply
import ChordV.Helper.Effects
import ChordV.Helper.KeysInStep
import ChordV.Helper.Requests
import ChordV.Helper.PublicDest
import ChordV.Desktop.Versions
import ChordV.Desktop.VersionOrder
import ChordV.Desktop.SessionStore
import ChordV.Desktop.SessionRuns
import ChordV.Deploy.Journal
import ChordV.Deploy.Supervisor
import ChordV.Deploy.Fence
import ChordV.Deploy.Markers
import ChordV.Deploy.Outcomes
import ChordV.Deploy.Requests
import ChordV.Deploy.Flow
import ChordV.Deploy.Reports
import ChordV.Deploy.RecoveryPoints
import ChordV.Deploy.Relaunch
