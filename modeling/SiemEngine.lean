import SiemEngine.Lib.Run
import SiemEngine.Lib.Footprint
import SiemEngine.Lib.Retention
import SiemEngine.Services.Serial
import SiemEngine.Services.Transactions
import SiemEngine.Schemas.Event
import SiemEngine.Storage.Events
import SiemEngine.Detection.Anomaly
import SiemEngine.Detection.Isolation
import SiemEngine.Detection.OutOfOrder
import SiemEngine.Detection.Schedule
import SiemEngine.Streaming.Retry
import SiemEngine.Streaming.Worker
import SiemEngine.Streaming.Dedup
import SiemEngine.Streaming.Redelivery
import SiemEngine.Streaming.Burst
import SiemEngine.Services.AuditTrail
import SiemEngine.Detection.SharedBaseline
import SiemEngine.Streaming.Rollup
import SiemEngine.Streaming.Flush
import SiemEngine.Services.SimulatorControl
import SiemEngine.Frontend.RealtimeProvider
import SiemEngine.Streaming.Accounting
import SiemEngine.Detection.Triggers
import SiemEngine.Detection.TriggerLaw
import SiemEngine.Detection.FoldedAlert
import SiemEngine.Detection.Breach
import SiemEngine.Detection.Damping
import SiemEngine.Detection.Blind
import SiemEngine.Detection.Distinct
import SiemEngine.Detection.Injection
import SiemEngine.Detection.Logins
import SiemEngine.Lib.Separated
import SiemEngine.Detection.CorrelationKeys
import SiemEngine.Python.Whitespace
import SiemEngine.Python.UuidText
import SiemEngine.Python.IpText
import SiemEngine.Schemas.Idempotence
import SiemEngine.Schemas.RawEvent
import SiemEngine.Services.ActiveAlerts
import SiemEngine.Lib.Like
import SiemEngine.Lib.Pages
import SiemEngine.Storage.Search
import SiemEngine.Streaming.Shutdown
import SiemEngine.Streaming.SeenSet
import SiemEngine.Simulator.Engine
import SiemEngine.Core.Admission
import SiemEngine.Streaming.MlLayer
import SiemEngine.Streaming.RollingMetrics
import SiemEngine.Api.Realtime
import SiemEngine.Lib.Replica
import SiemEngine.Services.AlertStream
import SiemEngine.Streaming.Publication
import SiemEngine.Frontend.LiveFeed
import SiemEngine.Streaming.Provenance
import SiemEngine.Lib.Pacing
import SiemEngine.Simulator.Loop
import SiemEngine.Lib.Grouping
import SiemEngine.Streaming.AlertWrites
import SiemEngine.Streaming.Growth
import SiemEngine.Storage.Aggregates
import SiemEngine.Api.Analytics
import SiemEngine.Services.Dashboard
import SiemEngine.Api.Detections
import SiemEngine.Api.Anomalies
import SiemEngine.Streaming.Ledger
import SiemEngine.Streaming.Signatures
