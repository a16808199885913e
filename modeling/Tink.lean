import Tink.Lib.Run
import Tink.Lib.Outcome
import Tink.Lib.Chan
import Tink.Lib.GoTime
import Tink.Lib.GoFormat
import Tink.Lib.Staged
import Tink.Lib.Versioned
import Tink.Lib.Columns
import Tink.Lib.Race
import Tink.Lib.Base64
import Tink.Lib.Mac
import Tink.Lib.Wildcard
import Tink.Lib.Json
import Tink.Lib.JsonText
import Tink.Lib.JsonSplice
import Tink.Lib.JsonNumber
import Tink.Lib.Jsonb
import Tink.Lib.Binary64
import Tink.Lib.JsonPrint
import Tink.Lib.GoJson
import Tink.Lib.Slice
import Tink.Proto
import Tink.Template
import Tink.Template.Language
import Tink.Kube.Workflow
import Tink.Kube.Server
import Tink.Kube.Controller
import Tink.Kube.History
import Tink.Kube.States
import Tink.Kube.Protocol
import Tink.Kube.Interleaving
import Tink.Kube.Contexts
import Tink.Kube.Retry
import Tink.Kube.Timeouts
import Tink.Db.Store
import Tink.Db.Server
import Tink.Db.Position
import Tink.Db.Trace
import Tink.Db.Index
import Tink.Db.Final
import Tink.Db.Concurrent
import Tink.Db.Dispatch
import Tink.Db.Order
import Tink.Db.Integrity
import Tink.Db.Data
import Tink.Db.Versions
import Tink.Db.Hardware
import Tink.Db.Lookup
import Tink.Db.Documents
import Tink.Db.ActionList
import Tink.Db.Templates
import Tink.Db.Snapshot
import Tink.Db.Watch
import Tink.Db.Listing
import Tink.Worker.Turn
import Tink.Worker.Job
import Tink.Worker.Process
import Tink.Worker.Report
import Tink.Worker.Bounds
import Tink.Worker.Announce
import Tink.Worker.Data
import Tink.Worker.Block
import Tink.Worker.Container
import Tink.Pkg.HardwareWrapper
import Tink.Backends
import Tink.Fleet.Front
import Tink.Fleet.System
import Tink.Fleet.Once
import Tink.Fleet.Discipline
import Tink.Fleet.Alone
import Tink.Fleet.Order
import Tink.Fleet.Completion
import Tink.Kube.Serial
import Tink.Kube.Static
import Tink.Kube.Advance
import Tink.Kube.Fleet
import Tink.Kube.Turns
import Tink.Kube.Invariant
import Tink.Kube.Exclusion
import Tink.Kube.Tasks
import Tink.Kube.Volumes
import Tink.Kube.Recovery
import Tink.Kube.Finality
import Tink.Backends.Lockstep
import Tink.Db.Events
import Tink.Fleet.Finality
import Tink.Worker.Handover
