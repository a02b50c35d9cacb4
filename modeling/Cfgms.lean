import Cfgms.Audit.Chain
import Cfgms.Audit.Delivery
import Cfgms.Audit.Numbering
import Cfgms.Audit.Registry
import Cfgms.Audit.Shipping
import Cfgms.BatchJob.Executor
import Cfgms.BatchJob.Rollback
import Cfgms.Config.FailClosed
import Cfgms.Config.Merge
import Cfgms.Config.Posture
import Cfgms.Config.Wire
import Cfgms.Dispatch.Actions
import Cfgms.Dispatch.Cancellation
import Cfgms.Dispatch.Completion
import Cfgms.Dispatch.Copies
import Cfgms.Dispatch.Dedup
import Cfgms.Dispatch.Outcomes
import Cfgms.Dispatch.Slots
import Cfgms.EntityGraph.Assertions
import Cfgms.EntityGraph.Evidence
import Cfgms.EntityGraph.Feed
import Cfgms.EntityGraph.Owner
import Cfgms.EntityGraph.Precedence
import Cfgms.EntityGraph.Safe
import Cfgms.EntityGraph.Sweeping
import Cfgms.Fleet.Conjunction
import Cfgms.Go.Json
import Cfgms.Launcher.Retention
import Cfgms.Lease.Fencing
import Cfgms.Lease.Providers
import Cfgms.Lease.Singleton
import Cfgms.Maintenance.Membership
import Cfgms.Maintenance.Occurrence
import Cfgms.Operator.Envelope
import Cfgms.Rbac.Compensation
import Cfgms.Rbac.Decision
import Cfgms.Rbac.Hierarchy
import Cfgms.Rbac.Restart
import Cfgms.Rbac.Revocation
import Cfgms.Rollback.Exclusion
import Cfgms.Rollback.Restore
import Cfgms.Script.Approval
import Cfgms.Script.Dedup
import Cfgms.Script.Result
import Cfgms.Steward.Fencing
import Cfgms.Steward.PendingCommands
import Cfgms.Steward.Replay
import Cfgms.Tenant.Approval
import Cfgms.Tenant.Containment
import Cfgms.Tenant.Crash
import Cfgms.Tenant.Service
import Cfgms.Trigger.Cron
import Cfgms.Workflow.Composition
import Cfgms.Workflow.Sync
import Cfgms.Workflow.VersionRange
