import Svindows.Advapi32.KeyNames
import Svindows.Advapi32.Values
import Svindows.Arch.Cpu
import Svindows.Arch.Switches
import Svindows.Arch.SystemCalls
import Svindows.Arch.Traps
import Svindows.Cm.Refusals
import Svindows.Ex.PoolSizes
import Svindows.Hal.Console
import Svindows.Hal.Keyboard
import Svindows.Hal.Mouse
import Svindows.Io.FatNames
import Svindows.Io.LongNames
import Svindows.Io.ShortNames
import Svindows.Ke.IdleSwitches
import Svindows.Ke.RingRefinement
import Svindows.Ke.SharedTime
import Svindows.Ke.UserPointers
import Svindows.Ke.WaitRings
import Svindows.Kernel32.Atoms
import Svindows.Kernel32.FilePointers
import Svindows.Kernel32.FileTimes
import Svindows.Kernel32.InitOnce
import Svindows.Kernel32.ModuleHandles
import Svindows.Kernel32.Mutex
import Svindows.Kernel32.ProcAddress
import Svindows.Kernel32.Resources
import Svindows.Kernel32.ThreadLocal
import Svindows.Kernel32.ThreadPoolRuns
import Svindows.Kernel32.ThreadPoolWaits
import Svindows.Kernel32.TimerQueues
import Svindows.Kernel32.Wildcards
import Svindows.Ldr.Confinement
import Svindows.Ldr.FailedLoads
import Svindows.Ldr.Forwarders
import Svindows.Ldr.ModuleLists
import Svindows.Ldr.Relocations
import Svindows.Ldr.StubSlots
import Svindows.Lib.Framing
import Svindows.Lib.LinkedLists
import Svindows.Lib.LinkedRing
import Svindows.Lib.WordStack
import Svindows.Mm.Multiboot
import Svindows.Mm.PmmRuns
import Svindows.Mm.Probe
import Svindows.Msvcrt.Allocations
import Svindows.Msvcrt.Arguments
import Svindows.Msvcrt.Search
import Svindows.Msvcrt.WideText
import Svindows.Ob.Namespace
import Svindows.Ps.Delays
import Svindows.Ps.FailedMappings
import Svindows.Ps.FreshRegions
import Svindows.Ps.References
import Svindows.Ps.ThreadCreation
import Svindows.Rtl.BoundedText
import Svindows.Rtl.CriticalSection
import Svindows.Rtl.Expansion
import Svindows.Rtl.Numerals
import Svindows.Rtl.Sorting
import Svindows.Rtl.SrwLock
import Svindows.Rtl.WideNumerals
import Svindows.User.Atoms
import Svindows.User.CallbackArenas
import Svindows.User.MouseButtons
import Svindows.User.Paints
import Svindows.User.RefusedWindows
import Svindows.User.Repaint
import Svindows.User.WindowLongs
import Svindows.W32k.Blits
import Svindows.W32k.Colours
import Svindows.W32k.Deletions
import Svindows.W32k.Fills
import Svindows.W32k.Lines
import Svindows.W32k.SharedRuns
import Svindows.W32k.WindowDcs
