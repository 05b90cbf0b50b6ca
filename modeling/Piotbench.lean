import Piotbench.Client.Boundary
import Piotbench.Client.Counts
import Piotbench.Client.Failure
import Piotbench.Client.Input
import Piotbench.Client.Launch
import Piotbench.Client.Lifetime
import Piotbench.Client.Main
import Piotbench.Client.Release
import Piotbench.Client.Report
import Piotbench.Client.Requests
import Piotbench.Client.Setup
import Piotbench.Client.System
import Piotbench.Client.Thread
import Piotbench.Client.Times
import Piotbench.Client.Worker
import Piotbench.Command.Grammar
import Piotbench.Command.Limits
import Piotbench.Command.Params
import Piotbench.Command.Parsing
import Piotbench.Command.Tables
import Piotbench.Lib.AtomicQueue
import Piotbench.Lib.Barrier
import Piotbench.Lib.Bytes
import Piotbench.Lib.Chain
import Piotbench.Lib.History
import Piotbench.Lib.Line
import Piotbench.Lib.Lock
import Piotbench.Lib.Places
import Piotbench.Lib.Scanf
import Piotbench.Lib.Spin
import Piotbench.Lib.Stage
import Piotbench.Lib.Transition
import Piotbench.Link.Idle
import Piotbench.Link.Progress
import Piotbench.Link.Replies
import Piotbench.Link.System
import Piotbench.Queue.Basic
import Piotbench.Queue.Custody
import Piotbench.Queue.Empty
import Piotbench.Queue.Fifo
import Piotbench.Queue.Linearization
import Piotbench.Queue.Linking
import Piotbench.Queue.Locks
import Piotbench.Queue.Progress
import Piotbench.Queue.Sequential
import Piotbench.Queue.Spin
import Piotbench.Queue.Threads
import Piotbench.Server.Accept
import Piotbench.Server.AcceptWorker
import Piotbench.Server.Accounts
import Piotbench.Server.Answering
import Piotbench.Server.Basic
import Piotbench.Server.Bounds
import Piotbench.Server.Cases
import Piotbench.Server.Cleanup
import Piotbench.Server.Compute
import Piotbench.Server.ConnLock
import Piotbench.Server.Construction
import Piotbench.Server.Descriptors
import Piotbench.Server.Digest
import Piotbench.Server.Drained
import Piotbench.Server.Ends
import Piotbench.Server.Epoll
import Piotbench.Server.Flight
import Piotbench.Server.Framing
import Piotbench.Server.History
import Piotbench.Server.Invariant
import Piotbench.Server.Io
import Piotbench.Server.Mirror
import Piotbench.Server.Order
import Piotbench.Server.Ownership
import Piotbench.Server.Pipeline
import Piotbench.Server.Pool
import Piotbench.Server.Program
import Piotbench.Server.Readahead
import Piotbench.Server.Reassembly
import Piotbench.Server.Registration
import Piotbench.Server.Returning
import Piotbench.Server.Reuse
import Piotbench.Server.Safety
import Piotbench.Server.Shutdown
import Piotbench.Server.Startup
import Piotbench.Server.Stopping
import Piotbench.Server.Submit
import Piotbench.Server.System
import Piotbench.Server.Teardown
import Piotbench.Server.Turns
import Piotbench.Server.Unclosed
import Piotbench.Server.Wakeup
import Piotbench.Server.Workers
