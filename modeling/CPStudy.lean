import CPStudy.Lib.Transition
import CPStudy.Lib.Count
import CPStudy.Lib.WakeUp
import CPStudy.Lib.Custody
import CPStudy.Lib.Handle
import CPStudy.Lib.BrokenChain
import CPStudy.Lib.Loop
import CPStudy.Lib.Region
import CPStudy.Lib.ByteMemory
import CPStudy.Lib.Resource
import CPStudy.Lib.Buffer
import CPStudy.Lib.Packing
import CPStudy.Lib.Chain
import CPStudy.Lib.Watch
import CPStudy.ThreadWrapper
import CPStudy.Copy.Model
import CPStudy.Copy.Values
import CPStudy.ThreadPool.Model
import CPStudy.ThreadPool.Effect
import CPStudy.ThreadPool.WakeUp
import CPStudy.ThreadPool.Drain
import CPStudy.MPSCQueue.NonIntrusive.Model
import CPStudy.MPSCQueue.NonIntrusive.Chain
import CPStudy.MPSCQueue.NonIntrusive.Fifo
import CPStudy.MPSCQueue.NonIntrusive.Ownership
import CPStudy.MPSCQueue.Intrusive.Model
import CPStudy.MPSCQueue.Intrusive.Chain
import CPStudy.MPSCQueue.Intrusive.Fifo
import CPStudy.MPSCQueue.Intrusive.Ownership
import CPStudy.MPSCQueue.Ownership
import CPStudy.ProducerConsumerQueue.Model
import CPStudy.ProducerConsumerQueue.Ownership
import CPStudy.ProducerConsumerQueue.WakeUp
import CPStudy.ThrdPool.TaskQueue
import CPStudy.ThrdPool.QueueWords
import CPStudy.ThrdPool.QueueFifo
import CPStudy.ThrdPool.Model
import CPStudy.ThrdPool.Effect
import CPStudy.ThrdPool.Shutdown
import CPStudy.ThrdPool.Progress
import CPStudy.ThrdPool.WakeUp
import CPStudy.ThrdPool.Tasks
import CPStudy.ThrdPool.Waitdone
import CPStudy.ThrdPool.Ownership
import CPStudy.ThrdPool.Completion
import CPStudy.ThrdPool.Controller
import CPStudy.ThrdPool.Destroy
import CPStudy.ThrdPool.Create
import CPStudy.MemPool.PagePool.Model
import CPStudy.MemPool.PagePool.Alloc
import CPStudy.MemPool.PagePool.Blocks
import CPStudy.MemPool.PagePool.Destroy
import CPStudy.MemPool.PagePool.Usage
import CPStudy.MemPool.FixedPool.Model
import CPStudy.MemPool.FixedPool.FreeList
import CPStudy.MemPool.FixedPool.Ownership
import CPStudy.MemPool.FixedPool.Stores
import CPStudy.Epoll.Kernel
import CPStudy.Epoll.Server.Model
import CPStudy.Epoll.Server.Effect
import CPStudy.Epoll.Server.Table
import CPStudy.Epoll.Server.Dispatch
import CPStudy.Epoll.Reactor
import CPStudy.Epoll.WebServer
import CPStudy.Epoll.Lengths
import CPStudy.Epoll.Indices
import CPStudy.Epoll.MultiIo.Model
import CPStudy.Epoll.MultiIo.Closes
import CPStudy.Epoll.Multiplex.Model
import CPStudy.Epoll.Multiplex.Watched
import CPStudy.Epoll.Multiplex.Reported
import CPStudy.Epoll.ThreadPerClient.Model
import CPStudy.Epoll.ThreadPerClient.Served
import CPStudy.Epoll.LoadClient.Model
import CPStudy.Epoll.LoadClient.Connections
import CPStudy.Lib.Threaded
import CPStudy.Lib.Timeline
import CPStudy.SkipList.Model
import CPStudy.SkipList.Levels
import CPStudy.SkipList.Search
import CPStudy.SkipList.Locate
import CPStudy.SkipList.Insert
import CPStudy.SkipList.Readers
import CPStudy.SkipList.Contents
import CPStudy.SkipList.Iterator
import CPStudy.SkipList.Estimate
import CPStudy.Lib.Mutex
import CPStudy.Lib.WeakMemory
import CPStudy.Lib.CriticalSection
import CPStudy.AtomicAndLock.MessagePassing
import CPStudy.AtomicAndLock.SeqCst
import CPStudy.AtomicAndLock.RelaxedTest
import CPStudy.AtomicAndLock.SpinLock
import CPStudy.AtomicAndLock.Autoinc
import CPStudy.LockedQueue.Model
import CPStudy.LockedQueue.Runs
import CPStudy.MsgQueue.Model
import CPStudy.MsgQueue.Effect
import CPStudy.MsgQueue.Mutexes
import CPStudy.MsgQueue.Fifo
import CPStudy.MsgQueue.WakeUp
import CPStudy.MsgQueue.Progress
import CPStudy.MsgQueue.Capacity
import CPStudy.MsgQueue.Create
import CPStudy.MsgQueue.Lists
