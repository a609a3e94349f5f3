import Vcli.Capture.Convert
import Vcli.Cli.Calendar
import Vcli.Cli.Pieces
import Vcli.Cli.Shown
import Vcli.Cli.Since
import Vcli.Cli.Timestamp
import Vcli.Core.Canonical
import Vcli.Core.Codec
import Vcli.Core.Digest
import Vcli.Core.EventCodec
import Vcli.Core.Fields
import Vcli.Core.Presentation
import Vcli.Core.Reader
import Vcli.Core.Roundtrip
import Vcli.Core.Serde
import Vcli.Core.Sha256
import Vcli.Core.Spelling
import Vcli.Daemon.Calling
import Vcli.Daemon.Cursor
import Vcli.Daemon.Digests
import Vcli.Daemon.Effects
import Vcli.Daemon.Eligibility
import Vcli.Daemon.EventHistory
import Vcli.Daemon.Handler
import Vcli.Daemon.Images
import Vcli.Daemon.Materialize
import Vcli.Daemon.Mirror
import Vcli.Daemon.Persist
import Vcli.Daemon.Pidfile
import Vcli.Daemon.Publish
import Vcli.Daemon.Rematerialize
import Vcli.Daemon.Requests
import Vcli.Daemon.Respond
import Vcli.Daemon.Restart
import Vcli.Daemon.Resume
import Vcli.Daemon.Retention
import Vcli.Daemon.Serving
import Vcli.Daemon.Startup
import Vcli.Daemon.Sweep
import Vcli.Daemon.System
import Vcli.Daemon.Telling
import Vcli.Dsl.Accepted
import Vcli.Dsl.Cycles
import Vcli.Dsl.Document
import Vcli.Dsl.Elapsed
import Vcli.Dsl.Error
import Vcli.Dsl.Grammar
import Vcli.Dsl.Hint
import Vcli.Dsl.Inline
import Vcli.Dsl.Pointing
import Vcli.Dsl.References
import Vcli.Dsl.Reload
import Vcli.Dsl.Targets
import Vcli.Dsl.Ticks
import Vcli.Dsl.Validate
import Vcli.Input.Dragging
import Vcli.Input.Keymap
import Vcli.Input.KillSwitch
import Vcli.Input.Sink
import Vcli.Input.Vocabulary
import Vcli.Ipc.Calls
import Vcli.Ipc.Client
import Vcli.Ipc.Exchange
import Vcli.Ipc.Frame
import Vcli.Ipc.Protocol
import Vcli.Ipc.Server
import Vcli.Ipc.Truncation
import Vcli.Ipc.Wire
import Vcli.Ipc.WireRoundtrip
import Vcli.Lib.BigEndian
import Vcli.Lib.BitString
import Vcli.Lib.Decimal
import Vcli.Lib.EditDistance
import Vcli.Lib.Fallible
import Vcli.Lib.FileName
import Vcli.Lib.Gregorian
import Vcli.Lib.Grid
import Vcli.Lib.History
import Vcli.Lib.Pathname
import Vcli.Lib.Pointer
import Vcli.Lib.Procedure
import Vcli.Lib.Quoted
import Vcli.Lib.Response
import Vcli.Lib.Route
import Vcli.Lib.Search
import Vcli.Lib.Selection
import Vcli.Lib.Sha2
import Vcli.Lib.Simulation
import Vcli.Lib.Slot
import Vcli.Lib.Sorting
import Vcli.Lib.Table
import Vcli.Lib.Transport
import Vcli.Perception.Clock
import Vcli.Perception.Evaluate
import Vcli.Perception.Geometry
import Vcli.Perception.Isolation
import Vcli.Perception.Leaf
import Vcli.Perception.Looks
import Vcli.Perception.Meaning
import Vcli.Perception.Motion
import Vcli.Perception.Noninterference
import Vcli.Perception.Relative
import Vcli.Perception.Stack
import Vcli.Runtime.Acting
import Vcli.Runtime.ActionLog
import Vcli.Runtime.Announcing
import Vcli.Runtime.BodyOrder
import Vcli.Runtime.Completion
import Vcli.Runtime.Discipline
import Vcli.Runtime.Emission
import Vcli.Runtime.Ending
import Vcli.Runtime.Exclusive
import Vcli.Runtime.Expiry
import Vcli.Runtime.Firing
import Vcli.Runtime.IterationOrder
import Vcli.Runtime.Judging
import Vcli.Runtime.Progress
import Vcli.Runtime.Terminal
import Vcli.Runtime.Turns
import Vcli.Runtime.Waiting
import Vcli.Runtime.WatchTick
import Vcli.Store.Assets
import Vcli.Store.BlobPath
import Vcli.Store.Collection
import Vcli.Store.Interrupted
import Vcli.Store.Programs
import Vcli.Store.Uploads
import Vcli.Cli.Watch
import Vcli.Daemon.Latency
import Vcli.Daemon.Lifecycle
import Vcli.Daemon.Poison
import Vcli.Daemon.Threads
