import OxCtrl.Lib.System
import OxCtrl.Lib.History
import OxCtrl.Lib.Outstanding
import OxCtrl.Lib.SearchTree
import OxCtrl.Lib.Ring
import OxCtrl.Lib.Tally
import OxCtrl.Lib.File
import OxCtrl.Geometry
import OxCtrl.BlkMd
import OxCtrl.Log.Entry
import OxCtrl.Log.Core
import OxCtrl.Log.Flush
import OxCtrl.Log.Fifo
import OxCtrl.Log.Ack
import OxCtrl.Log.Attempts
import OxCtrl.Log.FlushAll
import OxCtrl.App
import OxCtrl.Transaction
import OxCtrl.Store
import OxCtrl.TrOrder.Core
import OxCtrl.TrOrder.Invariant
import OxCtrl.Recovery.Replay
import OxCtrl.Recovery.Atomicity
import OxCtrl.Recovery.LogRead
import OxCtrl.Recovery.WritePointer
import OxCtrl.Recovery.Checkpoint
import OxCtrl.Recovery.Survive
import OxCtrl.Recovery.GcReplay
import OxCtrl.Recovery.LogChain
import OxCtrl.SeqTransfer
import OxCtrl.MdFlush
import OxCtrl.Recovery.CpImage
import OxCtrl.Recovery.CpRecover
import OxCtrl.Recovery.CpCrash
import OxCtrl.Recovery.Invalidation
import OxCtrl.ChProv.Core
import OxCtrl.ChProv.Lun
import OxCtrl.ChProv.WriteLine
import OxCtrl.ChProv.Runs
import OxCtrl.ChProv.Restart
import OxCtrl.GlProv.Core
import OxCtrl.GlProv.Users
import OxCtrl.GlMap.Core
import OxCtrl.GlMap.Invariant
import OxCtrl.GlMap.Cache
import OxCtrl.GlMap.Flush
import OxCtrl.GlMap.Refinement
import OxCtrl.GlMap.SmallTable
import OxCtrl.Lib.Increasing
import OxCtrl.Gc.Core
import OxCtrl.Gc.Remap
import OxCtrl.Gc.Moves
import OxCtrl.Gc.Preserve
import OxCtrl.Lib.Frames
import OxCtrl.Lib.Buffer
import OxCtrl.Fabrics.Framing
import OxCtrl.Fabrics.Sending
import OxCtrl.Fabrics.Routing
import OxCtrl.Lib.Memory
import OxCtrl.Fabrics.Sgl
import OxCtrl.Fabrics.Placement
import OxCtrl.NvmeParser
import OxCtrl.Fabrics.Addresses
import OxCtrl.Exec
import OxCtrl.LbaIo
import OxCtrl.Lib.Tailq
import OxCtrl.Mq.Core
import OxCtrl.Mq.Places
import OxCtrl.Mq.Invariant
import OxCtrl.Mq.Capacity
import OxCtrl.Mq.Pending
import OxCtrl.Mq.Once
import OxCtrl.Mq.Stages
import OxCtrl.Mq.Trace
import OxCtrl.HostQueue.Core
import OxCtrl.HostQueue.Slots
import OxCtrl.HostQueue.Follows
import OxCtrl.HostQueue.Calls
import OxCtrl.HostQueue.Requests
import OxCtrl.HostQueue.Callbacks
import OxCtrl.HostQueue.Answers
import OxCtrl.HostQueue.Untimed
import OxCtrl.InvalidCount
import OxCtrl.CommitFailure
import OxCtrl.FileBe.Core
import OxCtrl.FileBe.PageStore
import OxCtrl.PpaIo.Core
import OxCtrl.PpaIo.Once
import OxCtrl.CqRing
import OxCtrl.GlMap.Lists
import OxCtrl.GlMap.CacheRuns
import OxCtrl.ChProv.FullLine
import OxCtrl.Gc.Marks
import OxCtrl.Gc.Failed
import OxCtrl.Lib.Buckets
import OxCtrl.Gc.BucketSort
import OxCtrl.CloseBlk
import OxCtrl.TrAlloc
import OxCtrl.Log.Padding
import OxCtrl.Log.Truncate
import OxCtrl.ChProv.Handed
import OxCtrl.GlProv.PpaList
import OxCtrl.GlMap.Carried
import OxCtrl.GlMap.Relocation
import OxCtrl.GlMap.Threads
import OxCtrl.GlMap.Updates
import OxCtrl.ChProv.Listed
import OxCtrl.Recovery.ProvReplay
import OxCtrl.Recovery.Amend
import OxCtrl.ChProv.Steady
import OxCtrl.Recovery.Reopen
import OxCtrl.AbortByTs
import OxCtrl.LbaRange
import OxCtrl.Lib.Runs
import OxCtrl.PpaIo.Split
import OxCtrl.PpaIo.Overrun
import OxCtrl.Locks
import OxCtrl.Fabrics.Hostile
import OxCtrl.Fabrics.SglBounds
import OxCtrl.Lib.LastOut
import OxCtrl.NvmeHost.Answer
import OxCtrl.NvmeHost.Core
import OxCtrl.NvmeHost.Split
import OxCtrl.NvmeHost.Answer
import OxCtrl.NvmeHost.Progress
import OxCtrl.NvmeHost.Once
import OxCtrl.Lib.SlotMap
import OxCtrl.DmaSlots
import OxCtrl.Bbtbl
import OxCtrl.Recovery.CpEntries
import OxCtrl.Hmap
import OxCtrl.Lib.LinkedQueue
import OxCtrl.Mq.Collect
import OxCtrl.Fabrics.ReplyPool
import OxCtrl.SeqTransfer.Bytes
import OxCtrl.GlMap.Links
import OxCtrl.GlMap.Walk
import OxCtrl.GlMap.CpRuns
import OxCtrl.GlMap.CpCopy
import OxCtrl.Mmgr.HostDma
import OxCtrl.Mmgr.RoundTrip
import OxCtrl.Mmgr.VoltStore
