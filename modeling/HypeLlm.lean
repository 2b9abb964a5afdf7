import HypeLlm.Lib.Words
import HypeLlm.Lib.Runs
import HypeLlm.Lib.Maps
import HypeLlm.Lib.Lists
import HypeLlm.Lib.Heap
import HypeLlm.Ids
import HypeLlm.Budget.Ledger
import HypeLlm.Budget.System
import HypeLlm.Budget.Moves
import HypeLlm.Budget.Durable
import HypeLlm.Budget.Invariant
import HypeLlm.Budget.CrashSafety
import HypeLlm.Budget.Credits
import HypeLlm.Budget.CrashCost
import HypeLlm.Budget.Overdraft
import HypeLlm.Machine.Ledger
import HypeLlm.Machine.Accounts
import HypeLlm.Health.Breaker
import HypeLlm.Health.ProbeSlots
import HypeLlm.Admission.Bucket
import HypeLlm.Admission.Scope
import HypeLlm.Admission.Controller
import HypeLlm.Admission.Rollback
import HypeLlm.Admission.System
import HypeLlm.Admission.Wiring
import HypeLlm.Admission.Moves
import HypeLlm.Admission.Conservation
import HypeLlm.Admission.Tickets
import HypeLlm.Admission.OutputRate
import HypeLlm.Lib.Precedence
import HypeLlm.Lib.Sorting
import HypeLlm.Routing.Request
import HypeLlm.Routing.Target
import HypeLlm.Lib.Bytes
import HypeLlm.Routing.Decision
import HypeLlm.Routing.Policy
import HypeLlm.Routing.Verdicts
import HypeLlm.Routing.Eligibility
import HypeLlm.Routing.WrittenOrder
import HypeLlm.Routing.KeyNarrowing
import HypeLlm.Routing.Denies
import HypeLlm.Health.Registry
import HypeLlm.Health.Isolation
import HypeLlm.Crypto.Digests
import HypeLlm.Store.Frame
import HypeLlm.Store.Codec
import HypeLlm.Store.Log
import HypeLlm.Store.Replay
import HypeLlm.Store.Window
import HypeLlm.Store.Streaming
import HypeLlm.Store.TornTail
import HypeLlm.Lib.HashChain
import HypeLlm.Store.Audit
import HypeLlm.Store.Snapshot
import HypeLlm.Store.Store
import HypeLlm.Store.Invariant
import HypeLlm.Store.Appends
import HypeLlm.Store.Compaction
import HypeLlm.Store.Recovery
import HypeLlm.Store.AuditRecovery
import HypeLlm.Lib.Results
import HypeLlm.Lib.Utf8
import HypeLlm.Lib.Decimal
import HypeLlm.Sse.Encode
import HypeLlm.Sse.Parse
import HypeLlm.Sse.RoundTrip
import HypeLlm.Json.Value
import HypeLlm.Json.Parse
import HypeLlm.Json.ReadBack
import HypeLlm.Json.RoundTrip
import HypeLlm.Json.Canonical
import HypeLlm.Http.Message
import HypeLlm.Http.Request
import HypeLlm.Http.Body
import HypeLlm.Http.Bytewise
import HypeLlm.Http.Connection
import HypeLlm.Http.Client
import HypeLlm.Http.Response
import HypeLlm.Http.Lines
import HypeLlm.Http.Serialized
import HypeLlm.Http.Agreement
import HypeLlm.Fleet.ActivationQueue
import HypeLlm.Fleet.Demand
import HypeLlm.Pipeline.Errors
import HypeLlm.Pipeline.HiddenModels
import HypeLlm.Lib.Traces
import HypeLlm.Pipeline.Exchange
import HypeLlm.Pipeline.Phases
import HypeLlm.Pipeline.Attempts
import HypeLlm.Pipeline.Rounds
import HypeLlm.Pipeline.Visits
import HypeLlm.Pipeline.NoSplice
import HypeLlm.Pipeline.AcceptedOnce
import HypeLlm.Pipeline.Charges
import HypeLlm.Store.ProcessLock
import HypeLlm.Auth.KeyStore
import HypeLlm.Auth.KeyRequests
import HypeLlm.Auth.Sessions
import HypeLlm.Admin.Drafts
import HypeLlm.Admin.DraftStore
import HypeLlm.Admin.Separation
import HypeLlm.Fleet.Snapshot
import HypeLlm.Fleet.AgentVerbs
import HypeLlm.Fleet.PlanRuns
import HypeLlm.Fleet.Planning
import HypeLlm.Fleet.PlanFits
import HypeLlm.Fleet.ActivationLedger
import HypeLlm.Fleet.Commitments
import HypeLlm.Fleet.CommittedMemory
import HypeLlm.Fleet.Budgets
import HypeLlm.Lib.Tables
import HypeLlm.Jobs.Schedule
import HypeLlm.Jobs.Store
import HypeLlm.Jobs.Workers
import HypeLlm.Jobs.Lifecycle
import HypeLlm.Jobs.Lives
import HypeLlm.Jobs.SoundRuns
import HypeLlm.Jobs.Terminal
import HypeLlm.Jobs.OneTry
import HypeLlm.Jobs.Ended
import HypeLlm.Jobs.Reordering
import HypeLlm.Fleet.Execution
import HypeLlm.Fleet.Dispatch
import HypeLlm.Fleet.Recovery
import HypeLlm.Fleet.ChecksumRecords
import HypeLlm.Fleet.Checksums
import HypeLlm.Admission.Turns
import HypeLlm.Admission.RateBound
import HypeLlm.Admission.Republish
import HypeLlm.Admission.Partitions
import HypeLlm.Machine.Places
import HypeLlm.Routing.Ranking
import HypeLlm.Lib.Fitting
import HypeLlm.Pipeline.BoundedText
import HypeLlm.Pipeline.Accumulator
import HypeLlm.Store.AuditAppends
import HypeLlm.Admin.AuditPaging
import HypeLlm.Lib.Blocks
import HypeLlm.Net.Address
import HypeLlm.Net.Blocks
import HypeLlm.Net.Host
import HypeLlm.Net.Egress
import HypeLlm.Pipeline.Settled
import HypeLlm.Json.Literals
import HypeLlm.Sse.Draining
import HypeLlm.Sse.Chunking
import HypeLlm.Http.Stable
import HypeLlm.Http.Reads
import HypeLlm.Http.Chunks
import HypeLlm.Json.Objects
import HypeLlm.Store.AuditEvents
import HypeLlm.Store.AuditCodec
import HypeLlm.Auth.KeyRecords
import HypeLlm.Auth.KeyPayloads
import HypeLlm.Admin.KeyCreation
import HypeLlm.Admin.KeyLimits
import HypeLlm.Fleet.Enrollment
import HypeLlm.Fleet.EnrollmentRuns
import HypeLlm.Fleet.PlanSafety
import HypeLlm.Fleet.FlapBackoff
import HypeLlm.Fleet.Schedule
import HypeLlm.Fleet.Triggers
import HypeLlm.Fleet.Rollbacks
import HypeLlm.Fleet.AgentAnswers
import HypeLlm.Fleet.DemandRates
import HypeLlm.Fleet.EnrollmentRetention
import HypeLlm.Config.EditReach
import HypeLlm.Config.Canonical
import HypeLlm.Config.Joining
import HypeLlm.Fleet.EnrollmentRecords
import HypeLlm.Time.ClockSync
import HypeLlm.Time.Timestamps
import HypeLlm.Health.RollingWindow
import HypeLlm.Routing.ConversationAffinity
