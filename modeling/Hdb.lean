import Hdb.Lib.Stable
import Hdb.Lib.Run
import Hdb.Lib.Window
import Hdb.Lib.Segments
import Hdb.Lib.Returns
import Hdb.Lib.Table
import Hdb.Lib.Iterate
import Hdb.Lib.Bits
import Hdb.Lib.Buffers
import Hdb.Lib.WriteOnce
import Hdb.Lib.Memory
import Hdb.Lib.FirstFrom
import Hdb.Gdd.Detector
import Hdb.Gdd.Represent
import Hdb.Gdd.Reduce
import Hdb.Gdd.Deadlock
import Hdb.Gdd.Break
import Hdb.Gdd.Choice
import Hdb.Gdd.Degrees
import Hdb.Dtx.Xid
import Hdb.Dtx.Snapshot
import Hdb.Dtx.CommittedTest
import Hdb.Dtx.SnapshotHorizon
import Hdb.Dtx.SnapshotExact
import Hdb.Dtx.LogHorizon
import Hdb.Dtx.CommittedTree
import Hdb.Dtx.AdvanceOldestXmin
import Hdb.Dtx.ContextInfo
import Hdb.Dtx.ContextRoundTrip
import Hdb.Dtx.SnapshotReuse
import Hdb.Dtx.SnapshotFresh
import Hdb.Bitmap.Word
import Hdb.Bitmap.Header
import Hdb.Bitmap.Page
import Hdb.Bitmap.ShiftWidth
import Hdb.Bitmap.Insert
import Hdb.Bitmap.Buffer
import Hdb.Bitmap.Chain
import Hdb.Bitmap.Building
import Hdb.Bitmap.InPage
import Hdb.Bitmap.InsertSet
import Hdb.Bitmap.Build
import Hdb.Bitmap.PageChain
import Hdb.Bitmap.Scan
import Hdb.Bitmap.Union
import Hdb.Bitmap.ScanUnion
import Hdb.Bitmap.Readers
import Hdb.Bitmap.TupleReader
import Hdb.Bitmap.StreamReader
import Hdb.Bitmap.StreamTree
import Hdb.Bitmap.OpStream
import Hdb.Bitmap.StreamLeaves
import Hdb.Bitmap.ReadersAgree
import Hdb.Bitmap.Combination
import Hdb.Bitmap.TreeEnds
import Hdb.Tbm.Pagetable
import Hdb.Tbm.Contents
import Hdb.Tbm.Marking
import Hdb.Tbm.Union
import Hdb.Tbm.Intersect
import Hdb.Tbm.Iterate
import Hdb.Tbm.Runs
import Hdb.Mem.Runaway
import Hdb.Mem.RunawayCleanup
import Hdb.Mem.Vmem
import Hdb.Mem.VmemAccounting
import Hdb.Fts.Probe
import Hdb.Fts.Configuration
import Hdb.Fts.ProbePass
import Hdb.Fts.ProbeCycle
import Hdb.Fts.Failover
import Hdb.Fts.FailoverSafe
import Hdb.ResGroup.Control
import Hdb.ResGroup.RedZone
import Hdb.ResGroup.DispatchInfo
import Hdb.ResGroup.Cpuset
import Hdb.ResGroup.CpusetScan
import Hdb.ResGroup.CpusetReads
import Hdb.ResGroup.CpusetPrints
import Hdb.ResGroup.Node
import Hdb.ResGroup.Slots
import Hdb.ResGroup.Waiters
import Hdb.ResGroup.WaitersServed
import Hdb.ResGroup.Admission
import Hdb.ResGroup.AdmissionSteps
import Hdb.ResGroup.AdmissionMoves
import Hdb.ResGroup.Concurrency
import Hdb.ResGroup.AdmissionProcs
import Hdb.ResGroup.AdmissionRuns
import Hdb.AppendOnly.BufferedRead
import Hdb.AppendOnly.TemporaryRange
import Hdb.AppendOnly.VarBlock
import Hdb.AppendOnly.VarBlockValid
import Hdb.AppendOnly.VarBlockLayout
import Hdb.AppendOnly.VarBlockMaking
import Hdb.AppendOnly.Bitstream
import Hdb.AppendOnly.BitmapCompression
import Hdb.AppendOnly.BitmapTruncation
import Hdb.AppendOnly.Visimap
import Hdb.AppendOnly.VisimapEntries
import Hdb.AppendOnly.VisimapDelete
import Hdb.AppendOnly.VisimapResult
import Hdb.AppendOnly.Segfile
import Hdb.AppendOnly.SegfileStates
import Hdb.AppendOnly.SegfileRuns
import Hdb.Workfile.Manager
import Hdb.Workfile.Accounting
import Hdb.Workfile.AccountingRuns
import Hdb.Lib.LinkedLists
import Hdb.Interconnect.SendBuffers
import Hdb.Interconnect.SendInvariant
import Hdb.Interconnect.SendLoops
import Hdb.Interconnect.SendAccounting
import Hdb.Interconnect.Receiver
import Hdb.Interconnect.ReceiverSteps
import Hdb.Interconnect.SendLink
import Hdb.Interconnect.SendLinkCalls
import Hdb.Interconnect.SendLinkBuffers
import Hdb.Interconnect.Exchange
import Hdb.Interconnect.Delivery
import Hdb.Interconnect.PacketSplit
import Hdb.Interconnect.PacketSend
import Hdb.Interconnect.UnackRing
import Hdb.Interconnect.UnackRingExpiry
import Hdb.Interconnect.UnackRingRuns
import Hdb.Hash.Reduce
import Hdb.MemTuple.Binding
import Hdb.MemTuple.BindingLayout
import Hdb.MemTuple.Misaligned
import Hdb.MemTuple.FormSize
import Hdb.MemTuple.FormSizeLayout
import Hdb.MemTuple.FormSizeChoice
import Hdb.DatumStream.BitMapWrite
import Hdb.DatumStream.DenseWriter
import Hdb.DatumStream.DenseCounters
import Hdb.Interconnect.TupleChunks
import Hdb.Interconnect.ChunkSorter
import Hdb.Lib.Interleave
import Hdb.Interconnect.MotionNode
import Hdb.Interconnect.MotionDelivery
