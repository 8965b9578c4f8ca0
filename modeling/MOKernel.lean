import MOKernel.ParentForest
import MOKernel.Transcript
import MOKernel.Hierarchy
import MOKernel.Medium
import MOKernel.CString
import MOKernel.Separated
import MOKernel.Numeral
import MOKernel.Decimal
import MOKernel.Fs
import MOKernel.FsStep
import MOKernel.FsTree
import MOKernel.FsReserved
import MOKernel.FsFrame
import MOKernel.FsSiblings
import MOKernel.FsReadBack
import MOKernel.FsFresh
import MOKernel.FsPrinted
import MOKernel.ReadTrace
import MOKernel.EndAroundCarry
import MOKernel.ByteOrder
import MOKernel.ByteMemory
import MOKernel.Checksum
import MOKernel.NetStack
import MOKernel.InternetChecksum
import MOKernel.ParseIp
import MOKernel.Shell
import MOKernel.ShellWrite
import MOKernel.ShellUdp
import MOKernel.Pci
import MOKernel.RxRing
import MOKernel.RxTrack
import MOKernel.RxRead
import MOKernel.TxWait
import MOKernel.NetFrame
import MOKernel.NetBounds
import MOKernel.IpFrame
import MOKernel.IpBounds
import MOKernel.NetPoll
import MOKernel.NetEcho
import MOKernel.NetDepth
import MOKernel.NetAgreement
import MOKernel.Pmm
import MOKernel.Swap
import MOKernel.Paging
import MOKernel.SlotTable
import MOKernel.ArpCache
import MOKernel.ArpHandshake
import MOKernel.ArpWait
import MOKernel.PmmFrames
import MOKernel.PageMap
import MOKernel.PageWalk
import MOKernel.PageFault
import MOKernel.SwapMap
import MOKernel.SwapStale
import MOKernel.FsPath
import MOKernel.FsRoundTrip
import MOKernel.FsHierarchy
import MOKernel.FsAbstracts
import MOKernel.FsRefines
import MOKernel.Keyboard
import MOKernel.LineEditor
import MOKernel.KeyModifiers
import MOKernel.Typing
import MOKernel.Session
import MOKernel.Console
import MOKernel.StringCompare
import MOKernel.FsTerminated
import MOKernel.Mouse
import MOKernel.MouseSafe
import MOKernel.MouseMotion
import MOKernel.Highlight
import MOKernel.ConsoleBounds
import MOKernel.ScreenLine
import MOKernel.NumberPrint
import MOKernel.NetPing
import MOKernel.Lan
import MOKernel.LanEcho
import MOKernel.Pic
import MOKernel.Idt
import MOKernel.StackMachine
import MOKernel.InterruptStub
import MOKernel.Interrupts
import MOKernel.PortIo
import MOKernel.InputPath
import MOKernel.InputDelivery
import MOKernel.NetDriver
import MOKernel.NetBringUp
