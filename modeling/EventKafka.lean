import EventKafka.Lib.Table
import EventKafka.Lib.Program
import EventKafka.Lib.Mirror
import EventKafka.Lib.Disk
import EventKafka.Lib.Machine
import EventKafka.Lib.Ranking
import EventKafka.Lib.CursorLog
import EventKafka.Lib.Relational
import EventKafka.Outbox.Operations
import EventKafka.Outbox.EventId
import EventKafka.Outbox.Atomicity
import EventKafka.Outbox.Invariant
import EventKafka.Outbox.History
import EventKafka.Outbox.Fate
import EventKafka.Outbox.Backlog
import EventKafka.Outbox.Stamp
import EventKafka.Outbox.Part
import EventKafka.Outbox.Isolation
import EventKafka.Outbox.Age
import EventKafka.Outbox.Frame
import EventKafka.Outbox.Cursor
import EventKafka.Outbox.Transitions
import EventKafka.Outbox.Stats
import EventKafka.Outbox.Capacity
import EventKafka.Outbox.Fence
import EventKafka.Outbox.Rowid
import EventKafka.Outbox.Batch
import EventKafka.Outbox.Attempts
import EventKafka.File.Schema
import EventKafka.File.Open
import EventKafka.File.Migrate
import EventKafka.File.Fingerprint
import EventKafka.File.Cutover
import EventKafka.File.Retire
import EventKafka.File.Copies
import EventKafka.File.Publish
import EventKafka.Verifier.Rows
import EventKafka.Verifier.Evidence
import EventKafka.Verifier.Verify
import EventKafka.Verifier.Run
import EventKafka.Verifier.Reading
import EventKafka.Verifier.Failures
import EventKafka.Verifier.Verdict
import EventKafka.Verifier.Written
import EventKafka.Pipeline.Model
import EventKafka.Pipeline.Callback
import EventKafka.Pipeline.Calls
import EventKafka.Pipeline.Records
import EventKafka.Pipeline.Topics
import EventKafka.Pipeline.Linked
import EventKafka.Pipeline.FailStop
import EventKafka.Pipeline.Order
import EventKafka.Pipeline.Barrier
import EventKafka.Pipeline.Loss
import EventKafka.Pipeline.Flight
import EventKafka.Pipeline.Stop
import EventKafka.Pipeline.Drain
import EventKafka.Pipeline.Drill
import EventKafka.Pipeline.Books
import EventKafka.Pipeline.Counters
import EventKafka.Pipeline.Exit
import EventKafka.Pipeline.Halt
import EventKafka.Pipeline.Verified
import EventKafka.Pipeline.Publisher
import EventKafka.Pipeline.Policy
import EventKafka.Pipeline.Sends
import EventKafka.Pipeline.Fairness
