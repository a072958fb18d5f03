import InferenceRouter.Interleaving.Machine
import InferenceRouter.Interleaving.Threads
import InferenceRouter.Interleaving.Prog
import InferenceRouter.Interleaving.Effort
import InferenceRouter.Interleaving.Trace
import InferenceRouter.Balance.LeastLoaded
import InferenceRouter.Text.Fields
import InferenceRouter.ThreadPool.Model
import InferenceRouter.ThreadPool.Accounting
import InferenceRouter.ThreadPool.Wakeups
import InferenceRouter.ThreadPool.Tasks
import InferenceRouter.ThreadPool.Effort
import InferenceRouter.Connection.Frame
import InferenceRouter.Connection.Message
import InferenceRouter.Connection.Grammar
import InferenceRouter.Connection.Turns
import InferenceRouter.Connection.Decoder
import InferenceRouter.Connection.Pipe
import InferenceRouter.Connection.Tls
import InferenceRouter.Connection.TlsFraming
import InferenceRouter.Handler
import InferenceRouter.Router.Model
import InferenceRouter.Router.Invariant
import InferenceRouter.Router.Drain
import InferenceRouter.Router.Termination
import InferenceRouter.Router.Admission
import InferenceRouter.Router.Service
import InferenceRouter.BackendPool.Model
import InferenceRouter.BackendPool.Ownership
import InferenceRouter.BackendPool.Deques
import InferenceRouter.BackendPool.Bound
import InferenceRouter.BackendPool.Closing
import InferenceRouter.BackendPool.Standing
import InferenceRouter.BackendPool.Callers
import InferenceRouter.BackendPool.Waiters
import InferenceRouter.BackendPool.Timeouts
import InferenceRouter.BackendPool.Reaping
import InferenceRouter.BackendPool.Recycling
import InferenceRouter.BackendPool.Effort
import InferenceRouter.BackendPool.Growth
import InferenceRouter.BackendSet.Model
import InferenceRouter.BackendSet.Calls
import InferenceRouter.BackendSet.Accounting
import InferenceRouter.BackendSet.Callers
import InferenceRouter.BackendSet.Pick
import InferenceRouter.BackendSet.Shares
import InferenceRouter.BackendSet.Pools
import InferenceRouter.BackendSet.Counters
import InferenceRouter.BackendSet.Capacity
import InferenceRouter.BackendSet.Spread
import InferenceRouter.BackendSet.Effort
import InferenceRouter.BackendSet.Borrows
import InferenceRouter.Handler.Execution
import InferenceRouter.Handler.Progress
import InferenceRouter.Handler.Settled
import InferenceRouter.Handler.Overloads
import InferenceRouter.Relay.Conversation
import InferenceRouter.Relay.Protocol
import InferenceRouter.Relay.Model
import InferenceRouter.Relay.Invariant
import InferenceRouter.Relay.Backends
import InferenceRouter.Relay.Runs
import InferenceRouter.Relay.Exchange
import InferenceRouter.Relay.Responses
import InferenceRouter.Echo.Serving
import InferenceRouter.Echo.Loopback
import InferenceRouter.Shutdown.Model
import InferenceRouter.Shutdown.Signals
import InferenceRouter.CommandLine
import InferenceRouter.CommandLine.Specs
import InferenceRouter.Process.Model
import InferenceRouter.Process.Leases
import InferenceRouter.Process.Loads
import InferenceRouter.Process.Capacity
import InferenceRouter.Process.Spread
import InferenceRouter.Process.Books
import InferenceRouter.Process.Failover
import InferenceRouter.Process.Termination
import InferenceRouter.Process.Exit
import InferenceRouter.Process.Service
import InferenceRouter.Metrics.Snapshot
import InferenceRouter.Process.Report
import InferenceRouter.Connection.Descriptors
import InferenceRouter.Connection.Dial
import InferenceRouter.Connection.TlsLengths
import InferenceRouter.Connection.Clock
import InferenceRouter.Connection.Deadlines
import InferenceRouter.Handler.Residue
import InferenceRouter.Connection.Pump
import InferenceRouter.Handler.WriteRetry
import InferenceRouter.Acceptor.Lifecycle
