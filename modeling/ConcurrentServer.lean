import ConcurrentServer.Base.Int32
import ConcurrentServer.Base.Run
import ConcurrentServer.Base.Program
import ConcurrentServer.Base.Embed
import ConcurrentServer.Base.Objects
import ConcurrentServer.Base.Alone
import ConcurrentServer.Base.Linked
import ConcurrentServer.Base.Window
import ConcurrentServer.Base.Ring
import ConcurrentServer.Base.Fifo
import ConcurrentServer.Base.Threads
import ConcurrentServer.Base.Decimal
import ConcurrentServer.Base.Lines
import ConcurrentServer.Base.Descriptors
import ConcurrentServer.Base.CString
import ConcurrentServer.Net.Epoll
import ConcurrentServer.Net.Callbacks
import ConcurrentServer.Net.EventLoop
import ConcurrentServer.Net.LoopStep
import ConcurrentServer.Net.LoopTasks
import ConcurrentServer.Net.Quit
import ConcurrentServer.Net.Start
import ConcurrentServer.Net.ServerTimer
import ConcurrentServer.Net.Server
import ConcurrentServer.Net.ServerStep
import ConcurrentServer.Net.ConnList
import ConcurrentServer.Net.ListLock
import ConcurrentServer.Net.ConnTimers
import ConcurrentServer.Net.CloseOnce
import ConcurrentServer.Net.BatchLookup
import ConcurrentServer.Net.Lifetime
import ConcurrentServer.Net.Timeout
import ConcurrentServer.Net.Acceptor
import ConcurrentServer.Net.Accept
import ConcurrentServer.Net.IdleFd
import ConcurrentServer.Net.Teardown
import ConcurrentServer.Net.LateClean
import ConcurrentServer.Net.Confinement
import ConcurrentServer.Net.NextLoop
import ConcurrentServer.Net.FdOwners
import ConcurrentServer.Net.TimerOps
import ConcurrentServer.Net.TimerUse
import ConcurrentServer.Net.TcpConn
import ConcurrentServer.Net.Replies
import ConcurrentServer.Memory.Chunk
import ConcurrentServer.Memory.Mempool
import ConcurrentServer.Memory.Accounting
import ConcurrentServer.Memory.ListSize
import ConcurrentServer.Memory.PeakUse
import ConcurrentServer.Memory.DataBuf
import ConcurrentServer.Memory.BufferLogic
import ConcurrentServer.Memory.BufferSpec
import ConcurrentServer.Memory.Ownership
import ConcurrentServer.Memory.InputStream
import ConcurrentServer.Memory.ReadBounds
import ConcurrentServer.Memory.OutputStream
import ConcurrentServer.Memory.WriteSum
import ConcurrentServer.Memory.OutputInterest
import ConcurrentServer.Memory.Drained
import ConcurrentServer.Log.BufferQueue
import ConcurrentServer.Log.QueueCalls
import ConcurrentServer.Log.AsyncLog
import ConcurrentServer.Log.WriterStep
import ConcurrentServer.Log.WriterLife
import ConcurrentServer.Log.Logging
import ConcurrentServer.Log.LogOrder
import ConcurrentServer.Log.PopOnce
import ConcurrentServer.Log.LogFiles
import ConcurrentServer.Log.StreamUse
import ConcurrentServer.Log.FileNames
import ConcurrentServer.Log.DayFiles
import ConcurrentServer.Log.Rotation
import ConcurrentServer.Log.Midnight
import ConcurrentServer.Log.LineLimit
import ConcurrentServer.Log.Overrun
import ConcurrentServer.Log.ThreadFiles
import ConcurrentServer.Log.Front
import ConcurrentServer.Log.EmptyPop
import ConcurrentServer.Log.Record
import ConcurrentServer.Log.ReadBack
import ConcurrentServer.Log.Init
import ConcurrentServer.Pool.Threadpool
import ConcurrentServer.Pool.Shutdown
import ConcurrentServer.Pool.PoolStep
import ConcurrentServer.Pool.Wakeups
import ConcurrentServer.Pool.WindDown
import ConcurrentServer.Pool.Futures
import ConcurrentServer.Pool.IdleCount
import ConcurrentServer.Pool.Executions
import ConcurrentServer.Timer.Timer
import ConcurrentServer.Timer.TimerStep
import ConcurrentServer.Timer.Stop
import ConcurrentServer.Timer.Ids
import ConcurrentServer.Timer.Wakeup
import ConcurrentServer.Timer.Life
import ConcurrentServer.Timer.Nodes
import ConcurrentServer.Timer.Repeat
import ConcurrentServer.Timer.Cancel
import ConcurrentServer.Timer.Workers
import ConcurrentServer.Timer.IdTable
import ConcurrentServer.Timer.IdReuse
import ConcurrentServer.Timer.Order
import ConcurrentServer.Timer.Early
import ConcurrentServer.Timer.Available
import ConcurrentServer.Timer.View
import ConcurrentServer.Timer.Linearize
import ConcurrentServer.Net.OwnThread
import ConcurrentServer.Net.TimedServer
import ConcurrentServer.Net.TimedView
import ConcurrentServer.Net.TimedStep
import ConcurrentServer.Net.TimedRefines
