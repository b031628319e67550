import AdsHub.Lib.Runs
import AdsHub.Lib.Text
import AdsHub.Lib.Rounding
import AdsHub.Lib.Url
import AdsHub.Lib.Admission
import AdsHub.Lib.Rego
import AdsHub.Lib.Json
import AdsHub.Clock
import AdsHub.Http
import AdsHub.AiSpend.Ledger
import AdsHub.AiSpend.Sequential
import AdsHub.AiSpend.Concurrent
import AdsHub.Core.Models
import AdsHub.Core.Policy
import AdsHub.Authz
import AdsHub.Adapters
import AdsHub.Service
import AdsHub.BudgetRace
import AdsHub.TaskBus
import AdsHub.Orchestrator
import AdsHub.MissionRuns
import AdsHub.Lib.Mailbox
import AdsHub.VisualState
import AdsHub.Events.Server
import AdsHub.Events.Delivery
import AdsHub.Events.Streams
import AdsHub.Events.View
import AdsHub.Events.CatchUp
import AdsHub.Events.Canonical
import AdsHub.ModelRouter
import AdsHub.Lib.Dict
import AdsHub.Lib.JsonDecode
import AdsHub.Lib.JsonEncode
import AdsHub.Lib.JsonText
import AdsHub.Audit
import AdsHub.Lib.Table
import AdsHub.Finance
import AdsHub.Core.Config
import AdsHub.DryRun
import AdsHub.MissionTrace
import AdsHub.Cockpit
import AdsHub.Lib.Holdings
import AdsHub.DigitalTwin
import AdsHub.Lib.EventStream
import AdsHub.Events.Wire
import AdsHub.TwinAudit
import AdsHub.Lib.Python
import AdsHub.Lib.Chunks
import AdsHub.Agency3d.Manifest
import AdsHub.Agency3d.Office
import AdsHub.Agency3d.Glb
import AdsHub.Agency3d.Gate
import AdsHub.Agency3d.Roots
import AdsHub.Events.Contents
import AdsHub.Events.Reader
import AdsHub.Events.System
import AdsHub.BudgetGrowth
import AdsHub.Traffic
import AdsHub.Agency3d.Release
import AdsHub.AuditCrash
import AdsHub.Handoffs
import AdsHub.Events.Capacity
import AdsHub.AiSpend.Overshoot
import AdsHub.Gateway
import AdsHub.CockpitThreads
import AdsHub.Events.Numbers
import AdsHub.TwinReplay
import AdsHub.AiSpend.Books
