import CharlotteBroker.Lib.Bisect
import CharlotteBroker.Lib.Budget
import CharlotteBroker.Lib.OrderedMap
import CharlotteBroker.Core.Basic
import CharlotteBroker.Core.Log
import CharlotteBroker.Core.LogInvariant
import CharlotteBroker.Core.LogFetch
import CharlotteBroker.Core.Isolation
import CharlotteBroker.Core.Coordination
import CharlotteBroker.Core.Group
import CharlotteBroker.Lib.Prog
import CharlotteBroker.Runtime.Shard
import CharlotteBroker.Runtime.Broker
import CharlotteBroker.Runtime.View
import CharlotteBroker.Runtime.Calls
import CharlotteBroker.Runtime.Ledger
import CharlotteBroker.Runtime.Fencing
import CharlotteBroker.Runtime.Completion
import CharlotteBroker.Lib.Rpc
import CharlotteBroker.Lib.RpcHistory
import CharlotteBroker.Runtime.System
import CharlotteBroker.Runtime.Linear
import CharlotteBroker.Runtime.Exchanges
import CharlotteBroker.Core.Consumer
import CharlotteBroker.Core.Epochs
import CharlotteBroker.Core.Generations
import CharlotteBroker.Lib.BigEndian
import CharlotteBroker.Lib.Parser
import CharlotteBroker.Lib.Varint
import CharlotteBroker.Wire.Codec
import CharlotteBroker.Wire.RecordBatch
import CharlotteBroker.Wire.Grammar
import CharlotteBroker.Wire.Response
import CharlotteBroker.Wire.ReadBack
import CharlotteBroker.Engine.Dispatch
import CharlotteBroker.Engine.Handlers
import CharlotteBroker.Wire.Decoded
import CharlotteBroker.Engine.MemberFencing
import CharlotteBroker.Engine.Atomicity
import CharlotteBroker.Engine.Fetching
import CharlotteBroker.Engine.FrameBound
import CharlotteBroker.Runtime.Coordinator
import CharlotteBroker.Runtime.Retry
import CharlotteBroker.Runtime.Race
import CharlotteBroker.Core.Offsets
import CharlotteBroker.Core.Retention
import CharlotteBroker.Core.Windows
import CharlotteBroker.Wire.BatchRange
import CharlotteBroker.Engine.Entries
import CharlotteBroker.Engine.UnknownPartitions
import CharlotteBroker.Wire.Flags
import CharlotteBroker.Engine.TransactionalBit
import CharlotteBroker.Lib.Drain
import CharlotteBroker.Server.Connection
import CharlotteBroker.Runtime.Shutdown
import CharlotteBroker.Lib.Slices
import CharlotteBroker.Wire.Hostile.Records
import CharlotteBroker.Wire.Hostile.Requests
import CharlotteBroker.Lib.Dealing
import CharlotteBroker.Runtime.Assignment
import CharlotteBroker.Core.Enlistments
import CharlotteBroker.Wire.Concatenation
import CharlotteBroker.Engine.AppendLimit
import CharlotteBroker.Engine.FencedProducer
import CharlotteBroker.Wire.Timestamps
import CharlotteBroker.Engine.SyncAssignment
import CharlotteBroker.Engine.JoinAnswers
import CharlotteBroker.Lib.Crc
import CharlotteBroker.Wire.Corruption
import CharlotteBroker.Wire.Legacy
import CharlotteBroker.Lib.RpcLayer
import CharlotteBroker.Lib.RpcAtomic
import CharlotteBroker.Runtime.Atomic
import CharlotteBroker.Core.Kept
import CharlotteBroker.Runtime.RealTime
import CharlotteBroker.Runtime.Delivery
import CharlotteBroker.Runtime.Tenure
import CharlotteBroker.Runtime.Committed
import CharlotteBroker.Runtime.Membership
import CharlotteBroker.Engine.Script
import CharlotteBroker.Engine.Concurrent
import CharlotteBroker.Engine.GroupFrames
import CharlotteBroker.Server.Concurrent
