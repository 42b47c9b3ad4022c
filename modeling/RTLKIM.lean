import RTLKIM.Lib.Ring
import RTLKIM.Lib.Word
import RTLKIM.Lib.Run
import RTLKIM.Lib.Dll
import RTLKIM.Lib.Area
import RTLKIM.KHeap
import RTLKIM.KHeapSpec
import RTLKIM.BlockHeap
import RTLKIM.Critical
import RTLKIM.MemAlloc
import RTLKIM.Proofs.KHeapList
import RTLKIM.Proofs.KHeapLayout
import RTLKIM.Proofs.BlockHeap
import RTLKIM.Proofs.KHeapRefine
import RTLKIM.Proofs.KHeapFree
import RTLKIM.Proofs.KHeapRun
import RTLKIM.Proofs.KHeapShape
import RTLKIM.Proofs.KHeapAccount
import RTLKIM.Proofs.KHeapReplay
import RTLKIM.Proofs.Critical
import RTLKIM.Proofs.MemAllocList
import RTLKIM.Proofs.MemAllocOps
import RTLKIM.Proofs.MemAlloc
import RTLKIM.Lib.Place
import RTLKIM.Scheduler
import RTLKIM.Proofs.SchedPlace
import RTLKIM.Proofs.SchedStmt
import RTLKIM.Proofs.SchedSelect
import RTLKIM.Proofs.SchedCall
import RTLKIM.Proofs.SchedStep
import RTLKIM.Proofs.SchedWhole
import RTLKIM.Proofs.Join
import RTLKIM.Proofs.SchedJoin
import RTLKIM.Proofs.Reclaim
import RTLKIM.Proofs.SchedReclaim
import RTLKIM.Proofs.SchedExit
import RTLKIM.Lib.Waiters
import RTLKIM.Semaphore
import RTLKIM.Proofs.Semaphore
import RTLKIM.Mutex
import RTLKIM.Proofs.Mutex
import RTLKIM.Proofs.MutexRecursive
import RTLKIM.Channel
import RTLKIM.Lib.Circle
import RTLKIM.Lib.Count
import RTLKIM.Proofs.Channel
import RTLKIM.Proofs.Destroy
import RTLKIM.Lib.Frame
import RTLKIM.Lib.Packed
import RTLKIM.Proofs.MemAllocFree
import RTLKIM.Lib.Sweep
import RTLKIM.Paging
import RTLKIM.Proofs.Paging
import RTLKIM.FaultHandler
import RTLKIM.Lib.Scan
import RTLKIM.Proofs.FaultHandler
import RTLKIM.KernelQueue
import RTLKIM.Proofs.KernelQueue
import RTLKIM.LockSection
import RTLKIM.PagingLock
import RTLKIM.Proofs.PagingLock
import RTLKIM.SemPost
import RTLKIM.Proofs.SemPost
import RTLKIM.Proofs.ThreadRefs
import RTLKIM.Proofs.ThreadIds
import RTLKIM.Proofs.Orphans
import RTLKIM.Proofs.Dangling
import RTLKIM.PagePool
import RTLKIM.Proofs.PagePool
import RTLKIM.Lib.Walk
import RTLKIM.PageMemory
import RTLKIM.Proofs.PageMemory
import RTLKIM.Proofs.MmapHw
import RTLKIM.Proofs.MmapAtomic
import RTLKIM.Proofs.MemAllocCanon
import RTLKIM.FramePool
import RTLKIM.Proofs.FramePool
import RTLKIM.MemInfo
import RTLKIM.Proofs.MemInfo
import RTLKIM.Proofs.PageInit
import RTLKIM.SseSwitch
import RTLKIM.Proofs.SseSwitch
import RTLKIM.Proofs.ObjectHeap
import RTLKIM.MutexSet
import RTLKIM.Proofs.MutexSet
import RTLKIM.Proofs.MutexRestore
import RTLKIM.MallocFail
import RTLKIM.Proofs.MallocFail
import RTLKIM.Proofs.KHeapSearch
import RTLKIM.Proofs.KHeapStale
import RTLKIM.Proofs.QueueSize
import RTLKIM.Proofs.QueueOrder
import RTLKIM.Proofs.SchedWake
import RTLKIM.Proofs.SchedElect
import RTLKIM.Proofs.SchedSleep
import RTLKIM.JoinResult
import RTLKIM.Proofs.JoinResult
import RTLKIM.ThreadCreate
import RTLKIM.Proofs.ThreadCreate
import RTLKIM.ThreadsInfo
import RTLKIM.Proofs.ThreadsInfo
import RTLKIM.ChannelInit
import RTLKIM.Proofs.ChannelInit
import RTLKIM.Lib.Stride
import RTLKIM.Acpi
import RTLKIM.AcpiSpec
import RTLKIM.Proofs.AcpiRead
import RTLKIM.Proofs.Madt
import RTLKIM.Proofs.Sdt
import RTLKIM.Proofs.AcpiPages
import RTLKIM.Lib.Buffer
import RTLKIM.KernelOutput
import RTLKIM.FormatSpec
import RTLKIM.Proofs.Uitoa
import RTLKIM.Proofs.KernelOutput
import RTLKIM.Proofs.SignedFormat
import RTLKIM.Proofs.Routing
import RTLKIM.Lib.Loop
import RTLKIM.Proofs.VgaScroll
import RTLKIM.Proofs.VgaText
import RTLKIM.VgaText
import RTLKIM.FastCopy
import RTLKIM.Proofs.FastCopy
import RTLKIM.Proofs.Vesa
import RTLKIM.Vesa
import RTLKIM.AtaPio
import RTLKIM.Proofs.AtaPio
import RTLKIM.Lib.Gregorian
import RTLKIM.Rtc
import RTLKIM.Proofs.Rtc
import RTLKIM.LapicTimer
import RTLKIM.Proofs.LapicTimer
import RTLKIM.Udivmoddi4
import RTLKIM.Proofs.Udivmoddi4
import RTLKIM.Lib.Occurrence
import RTLKIM.Memmem
import RTLKIM.Lib.Numeral
import RTLKIM.Proofs.Memmem
import RTLKIM.Lib.Radix
import RTLKIM.QDivRem
import RTLKIM.Proofs.QDivWords
import RTLKIM.Proofs.QDivRem
import RTLKIM.Interrupts
import RTLKIM.Pic
import RTLKIM.IrqSystem
import RTLKIM.Proofs.Pic
import RTLKIM.Proofs.IrqRefine
import RTLKIM.PagingInit
import RTLKIM.Proofs.PagingInit
import RTLKIM.ContextSwitch
import RTLKIM.Proofs.ContextSwitch
import RTLKIM.SmpBoot
import RTLKIM.Proofs.SmpBoot
import RTLKIM.Strtok
import RTLKIM.Proofs.Strtok
import RTLKIM.Memmove
import RTLKIM.Proofs.Memmove
import RTLKIM.Keyboard
import RTLKIM.Proofs.Keyboard
