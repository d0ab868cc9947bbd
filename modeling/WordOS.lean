import WordOS.Drivers.Apic
import WordOS.Kernel.PciCapabilities
import WordOS.Kernel.PciTree
import WordOS.Acpi.SdtCache
import WordOS.Ahci.CommandFrame
import WordOS.Ahci.CommandSegments
import WordOS.Ahci.ReadIdentify
import WordOS.Drivers.Framebuffer
import WordOS.Drivers.Pixels
import WordOS.Drivers.Keyboard
import WordOS.Drivers.KeyboardCodes
import WordOS.Drivers.KeyboardRuns
import WordOS.Drivers.KeyboardShift
import WordOS.Kernel.InterruptFrames
import WordOS.Kernel.InterruptReturn
import WordOS.Kernel.Interrupts
import WordOS.Kernel.Logf
import WordOS.Kernel.Scheduler
import WordOS.Kernel.SchedulerContexts
import WordOS.Kernel.SchedulerDelete
import WordOS.Kernel.SchedulerFairness
import WordOS.Kernel.SchedulerKill
import WordOS.Kernel.SchedulerList
import WordOS.Kernel.SchedulerRuns
import WordOS.Kernel.SchedulerTick
import WordOS.Kernel.Serial
import WordOS.Kernel.SerialNumerals
import WordOS.Lib.Bitmap
import WordOS.Lib.Bytes
import WordOS.Lib.ColoredTree
import WordOS.Lib.LineEditing
import WordOS.Lib.LinkedList
import WordOS.Lib.Loops
import WordOS.Lib.Numerals
import WordOS.Lib.PageTables
import WordOS.Lib.Painting
import WordOS.Lib.Ranges
import WordOS.Lib.Reversal
import WordOS.Lib.RingBuffer
import WordOS.Lib.Runs
import WordOS.Lib.Scanning
import WordOS.Lib.Words
import WordOS.Lib.Zipper
import WordOS.Machine
import WordOS.Memory.Heap
import WordOS.Memory.HeapAlloc
import WordOS.Memory.HeapFirstFit
import WordOS.Memory.HeapFree
import WordOS.Memory.HeapHeaders
import WordOS.Memory.HeapLinkRuns
import WordOS.Memory.HeapRekalloc
import WordOS.Memory.HeapRuns
import WordOS.Memory.HeapStrides
import WordOS.Memory.HeapTiling
import WordOS.Memory.NewPdptes
import WordOS.Memory.PaeAccess
import WordOS.Memory.PaeFree
import WordOS.Memory.PaeMap
import WordOS.Memory.PaeTables
import WordOS.Memory.PaeTranslation
import WordOS.Memory.PageRange
import WordOS.Memory.Paging
import WordOS.Memory.PdFrames
import WordOS.Memory.PdMap
import WordOS.Memory.PdTables
import WordOS.Memory.PdTranslation
import WordOS.Memory.PdpteContents
import WordOS.Memory.PdpteRuns
import WordOS.Memory.Pmm
import WordOS.Memory.PmmBitmap
import WordOS.Memory.PmmRange
import WordOS.Memory.PmmRuns
import WordOS.Memory.Strings
import WordOS.Memory.StringCopies
import WordOS.Memory.TableFrames
import WordOS.Memory.Transfer
import WordOS.Memory.TransferResult
import WordOS.Memory.TransferSteps
import WordOS.Memory.TransferTables
import WordOS.Memory.Vmm
import WordOS.Memory.VmmBestFit
import WordOS.Memory.VmmBounds
import WordOS.Memory.VmmCarve
import WordOS.Memory.VmmConservation
import WordOS.Memory.VmmFree
import WordOS.Memory.VmmKernelRoot
import WordOS.Memory.VmmLastRange
import WordOS.Memory.VmmMapped
import WordOS.Memory.VmmOwnership
import WordOS.Memory.VmmRuns
import WordOS.Memory.VmmSlots
import WordOS.Memory.VmmTake
import WordOS.Memory.VmmTakeClean
import WordOS.Memory.VmmTakeFrame
import WordOS.Memory.VmmTransfer
import WordOS.Memory.VmmTree
import WordOS.Programs.Printf
import WordOS.Programs.Terminal
import WordOS.Programs.TerminalBounds
import WordOS.Programs.TerminalCalls
import WordOS.Programs.TerminalColors
import WordOS.Programs.TerminalCommands
import WordOS.Programs.TerminalDraw
import WordOS.Programs.TerminalHex
import WordOS.Programs.TerminalInput
import WordOS.Programs.TerminalKeys
import WordOS.Programs.TerminalLines
import WordOS.Programs.TerminalPixels
import WordOS.Programs.TerminalScreen
import WordOS.Programs.TerminalScroll
import WordOS.Programs.TerminalWrites
import WordOS.Utils.ArrayList
import WordOS.Utils.ArrayListLimits
import WordOS.Utils.ArrayListRuns
import WordOS.Utils.RbAccess
import WordOS.Utils.RbDelete
import WordOS.Utils.RbDeleteBalance
import WordOS.Utils.RbDeleteClean
import WordOS.Utils.RbDeleteFix
import WordOS.Utils.RbDeleteInner
import WordOS.Utils.RbDeleteLeaf
import WordOS.Utils.RbDeletePath
import WordOS.Utils.RbDeleteRanges
import WordOS.Utils.RbDeleteRoot
import WordOS.Utils.RbDeleteViolations
import WordOS.Utils.RbDeleteUnlink
import WordOS.Utils.RbInsert
import WordOS.Utils.RbInsertBalance
import WordOS.Utils.RbInsertFix
import WordOS.Utils.RbRotation
import WordOS.Utils.RbRotationLaws
import WordOS.Utils.RbSearch
import WordOS.Utils.RbShape
import WordOS.Utils.RbStore
import WordOS.Utils.RbStoreDelete
import WordOS.Utils.RbTree
import WordOS.Multiboot.TagLists
import WordOS.Ahci.CommandMemory
import WordOS.Ahci.CommandSlots
import WordOS.Lib.Ranks
import WordOS.Memory.FrameOrder
import WordOS.Ahci.PortTables
import WordOS.Memory.HeapLinks
import WordOS.Memory.PaeRuns
import WordOS.Lib.Objects
import WordOS.Memory.HeapObjects
import WordOS.Kernel.DescriptorTables
import WordOS.Kernel.ExceptionFrames
import WordOS.Kernel.SystemCalls
import WordOS.Boot.BootTables
import WordOS.Boot.PgInit
import WordOS.Programs.TerminalSession
import WordOS.Memory.PaeSwitch
import WordOS.Memory.Directories
import WordOS.Memory.AddressSpaces
import WordOS.Memory.ProcessSpaces
import WordOS.Kernel.Multiprogramming
