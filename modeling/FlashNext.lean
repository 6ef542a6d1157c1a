import FlashNext.Effect.Run
import FlashNext.Effect.Trace
import FlashNext.Json.Dump
import FlashNext.Json.Load
import FlashNext.Text.Hex
import FlashNext.Posix.PurePath
import FlashNext.Posix.Tree
import FlashNext.Effect.Check
import FlashNext.Checkpoint.Exn
import FlashNext.Checkpoint.Inventory
import FlashNext.Checkpoint.Receipt
import FlashNext.Checkpoint.ReceiptSound
import FlashNext.Checkpoint.Verify
import FlashNext.Checkpoint.Agreement
import FlashNext.Checkpoint.Accepted
import FlashNext.Guard.Calls
import FlashNext.Guard.Ownership
import FlashNext.Guard.Launch
import FlashNext.Guard.Phases
import FlashNext.Guard.Opening
import FlashNext.Guard.Exit
import FlashNext.Guard.Start
import FlashNext.Guard.Honesty
import FlashNext.Guard.Stop
import FlashNext.Guard.Watchdog
import FlashNext.Guard.Recovery
import FlashNext.Guard.MemVerdict
import FlashNext.Guard.Telemetry
import FlashNext.Py.Value
import FlashNext.Py.Text
import FlashNext.Text.Utf8
import FlashNext.Http.Sse
import FlashNext.Http.Stream
import FlashNext.Http.Admission
import FlashNext.Http.Corrupt
import FlashNext.Capture.Record
import FlashNext.Capture.Observed
import FlashNext.Capture.Sound
import FlashNext.Capture.Bounded
import FlashNext.Capture.Cold
import FlashNext.Effect.System
import FlashNext.Vit.Runner
import FlashNext.Vit.Awaited
import FlashNext.Vit.Recency
import FlashNext.Tensor.Index
import FlashNext.Qsa.Plan
import FlashNext.Qsa.Pool
import FlashNext.Qsa.Forward
import FlashNext.Qsa.Speculation
import FlashNext.Compare.Number
import FlashNext.Compare.Prose
import FlashNext.Compare.Upstream
import FlashNext.Compare.Manifest
import FlashNext.Compare.Verdict
import FlashNext.Compare.Sound
import FlashNext.Compare.Coverage
import FlashNext.Runtime.Profile
import FlashNext.Runtime.Accepted
import FlashNext.Runtime.Admitted
import FlashNext.Runtime.Payload
import FlashNext.Runtime.Launch
import FlashNext.Runtime.Canonical
import FlashNext.Compare.Lever
import FlashNext.Compare.Handled
import FlashNext.Stats.Samples
import FlashNext.Compare.Faster
import FlashNext.Compare.Monotone
import FlashNext.Num.Binary64
import FlashNext.Text.Pattern
import FlashNext.Audit.Contract
import FlashNext.Audit.Names
import FlashNext.Audit.Document
import FlashNext.Audit.Header
import FlashNext.Audit.Family
import FlashNext.Audit.Agreement
import FlashNext.Audit.Admission
import FlashNext.Audit.Sound
import FlashNext.Audit.Tiling
import FlashNext.Audit.Complete
import FlashNext.Audit.Refusal
import FlashNext.Niah.Run
import FlashNext.Niah.Verdict
import FlashNext.Niah.Build
import FlashNext.Niah.Exact
import FlashNext.Niah.Order
import FlashNext.Niah.Accounting
import FlashNext.Text.Utf8Lossy
import FlashNext.Py.Dump
import FlashNext.Py.Argv
import FlashNext.Py.Find
import FlashNext.Py.Load
import FlashNext.Py.Write
import FlashNext.Py.SortedKeys
import FlashNext.Quality.Admission
import FlashNext.Quality.Exclusive
import FlashNext.Sandbox.Request
import FlashNext.Sandbox.Driver
import FlashNext.Sandbox.Candidate
import FlashNext.Sandbox.Forgery
import FlashNext.Sandbox.Receipt
import FlashNext.Ple.Agree
import FlashNext.Ple.Build
import FlashNext.Ple.Derive
import FlashNext.Ple.Disjoint
import FlashNext.Ple.Document
import FlashNext.Ple.Header
import FlashNext.Ple.Materialized
import FlashNext.Ple.Opening
import FlashNext.Ple.Unmodified
import FlashNext.Http.Marks
import FlashNext.Text.Utf8Encode
import FlashNext.Http.Completion
import FlashNext.Http.Evidence
import FlashNext.Http.Framing
import FlashNext.Bench.Validity
import FlashNext.Bench.Identity
import FlashNext.Qsa.Select
import FlashNext.Checkpoint.Exchange
import FlashNext.Checkpoint.Recheck
import FlashNext.Checkpoint.PathRules
import FlashNext.Ngram.Hash
import FlashNext.Qsa.Expand
import FlashNext.Qsa.WritePlan
import FlashNext.Qsa.GraphLayout
import FlashNext.Qsa.GraphRows
import FlashNext.Preflight.Mountinfo
import FlashNext.Preflight.Sound
import FlashNext.Preflight.Mounts
import FlashNext.Effect.Pool
import FlashNext.Effect.Preserves
import FlashNext.Ple.Receipt
import FlashNext.Ple.Reread
import FlashNext.Ple.Prepare
import FlashNext.Ple.Volume
import FlashNext.Ple.Moves
import FlashNext.Ple.Steps
import FlashNext.Ple.Looks
import FlashNext.Ple.Pinned
import FlashNext.Ple.Published
import FlashNext.Ple.Prepared
import FlashNext.Ple.Served
import FlashNext.Ple.Shared
import FlashNext.Ple.Paths
import FlashNext.Ple.Quiet
import FlashNext.Ple.Warm
import FlashNext.Ple.Again
import FlashNext.Ple.Interleaved
import FlashNext.Tensor.Window
import FlashNext.Tensor.Stored
import FlashNext.Ngram.Batch
import FlashNext.Ngram.StatePool
import FlashNext.Ngram.Context
import FlashNext.Ngram.Placed
import FlashNext.Ngram.Rolled
import FlashNext.Ngram.Runs
import FlashNext.Ngram.Segment
import FlashNext.Ngram.Ids
import FlashNext.Ngram.Accepted
