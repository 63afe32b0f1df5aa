import ThriftProxy.Lib.Transition
import ThriftProxy.Lib.Memory
import ThriftProxy.Lib.Ring
import ThriftProxy.Lib.Monitor
import ThriftProxy.Lib.WordMemory
import ThriftProxy.Lib.ByteMemory
import ThriftProxy.Lib.Program
import ThriftProxy.Lib.Decimal
import ThriftProxy.Lib.Text
import ThriftProxy.Lib.Residues
import ThriftProxy.Lib.Fuel
import ThriftProxy.PoolSemantics
import ThriftProxy.Lending
import ThriftProxy.HeldConnections
import ThriftProxy.Proto
import ThriftProxy.Mempool
import ThriftProxy.MempoolSemantics
import ThriftProxy.Timer
import ThriftProxy.ClientInfo
import ThriftProxy.Store
import ThriftProxy.LiveRequests
import ThriftProxy.StoreSteps
import ThriftProxy.Refinement
import ThriftProxy.Inbound
import ThriftProxy.Handler
import ThriftProxy.HandlerProtocol
import ThriftProxy.HandlerRequests
import ThriftProxy.Content
import ThriftProxy.StoredRecord
import ThriftProxy.Outbound
import ThriftProxy.System
import ThriftProxy.WorkerOps
import ThriftProxy.Disconnect
import ThriftProxy.Ownership
import ThriftProxy.CheckReply
import ThriftProxy.FailClosed
import ThriftProxy.FirstUsable
import ThriftProxy.RoundRobin
import ThriftProxy.Cursor
import ThriftProxy.SelectChannel
import ThriftProxy.PoolLayout
import ThriftProxy.AddressList
import ThriftProxy.ThreadPool
import ThriftProxy.Wakeups
import ThriftProxy.Shutdown
import ThriftProxy.BoundedQueue
import ThriftProxy.MempoolSafety
import ThriftProxy.Config
import ThriftProxy.ConfigSnapshots
import ThriftProxy.ConfigGrammar
import ThriftProxy.ConfigTermination
import ThriftProxy.LogProcessor
import ThriftProxy.LogDates
import ThriftProxy.LogRemoval
import ThriftProxy.Retention
import ThriftProxy.Archives
import ThriftProxy.LogRuns
import ThriftProxy.Reactivation
import ThriftProxy.TimerExactness
import ThriftProxy.TimerCancellation
import ThriftProxy.ZeroedItems
import ThriftProxy.VarRoundTrip
import ThriftProxy.PutFailure
import ThriftProxy.Leases
import ThriftProxy.BinaryProtocol
import ThriftProxy.PoolRegistry
import ThriftProxy.PoolWorkers
import ThriftProxy.Served
import ThriftProxy.Threads
import ThriftProxy.ServedRuns
import ThriftProxy.AsIfAlone
import ThriftProxy.Uninit
import ThriftProxy.ThriftCalls
import ThriftProxy.ThriftReplies
import ThriftProxy.ThriftSessions
import ThriftProxy.ProxyInit
import ThriftProxy.Nightly
import ThriftProxy.RequestLifetimes
