import OpenClaw.Capacity.Conservation
import OpenClaw.Numbers.Runs
import OpenClaw.Migration.Safety
import OpenClaw.Migration.Once
import OpenClaw.Host.Launches
import OpenClaw.Host.Recovery
import OpenClaw.Host.Health
import OpenClaw.Host.Throttle
import OpenClaw.Host.Copies
import OpenClaw.Host.Volumes
import OpenClaw.Host.PausedVms
import OpenClaw.Host.DeadZone
import OpenClaw.Host.Balloons
import OpenClaw.Host.PauseWindows
import OpenClaw.Host.Isolation
import OpenClaw.Routing.Cutover
import OpenClaw.Routing.TwoHops
import OpenClaw.Lifecycle.PendingPath
import OpenClaw.Lifecycle.Expiry
import OpenClaw.Failover.Batch
import OpenClaw.Failover.Cooldown
import OpenClaw.Failover.PublicGate
import OpenClaw.Fleet.Addresses
import OpenClaw.Fleet.Dnat
import OpenClaw.Audit.Paging
import OpenClaw.Lifecycle.Schedules
import OpenClaw.Audit.Completeness
import OpenClaw.Api.Gating
import OpenClaw.Host.PeerFreeze
import OpenClaw.Host.Addressing
import OpenClaw.Lifecycle.SkillScope
import OpenClaw.Lifecycle.Windows
import OpenClaw.Lifecycle.GroupSkills
import OpenClaw.Lifecycle.Backups
import OpenClaw.Lifecycle.Outcomes
import OpenClaw.Api.TagFilters
import OpenClaw.Capacity.Contention
import OpenClaw.Capacity.Resizes
import OpenClaw.Capacity.Quotas
import OpenClaw.Lifecycle.Ids
import OpenClaw.Failover.VerifyGate
import OpenClaw.Failover.Watchdog
import OpenClaw.Routing.Allocation
import OpenClaw.Routing.TargetGroups
import OpenClaw.Host.Boot
import OpenClaw.Host.Images
import OpenClaw.Fleet.Shapes
import OpenClaw.Routing.Moves
import OpenClaw.Lifecycle.LaunchText
import OpenClaw.Control.Invocations
import OpenClaw.Control.Scans
import OpenClaw.Fleet.Assignments
import OpenClaw.Capacity.ScaleIn
import OpenClaw.Host.Metrics
import OpenClaw.Failover.Heartbeats
