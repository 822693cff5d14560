import Hypervi.Mtrr.Model
import Hypervi.Memory.Byte
import Hypervi.Mtrr.Table
import Hypervi.Mtrr.Lookup
import Hypervi.Mtrr.Region
import Hypervi.Mtrr.Noninterference
import Hypervi.Bits.Run
import Hypervi.Mtrr.Sdm
import Hypervi.Ept.Model
import Hypervi.Ept.Tables
import Hypervi.Ept.Walk
import Hypervi.Ept.Resolve
import Hypervi.Mtrr.Order
import Hypervi.Ept.Order
import Hypervi.Freestanding.Segments
import Hypervi.Cpu.Init
import Hypervi.Cpu.Check
import Hypervi.Cpu.SegmentRules
import Hypervi.Cpu.Capture
import Hypervi.Cpu.LimitRules
import Hypervi.Cpu.StateRules
import Hypervi.Cpu.LegalSegments
import Hypervi.Freestanding.Macros
import Hypervi.Loader.Idt
import Hypervi.Cpu.HostEntry
import Hypervi.Loader.Gdt
import Hypervi.Cpu.Launch
import Hypervi.Cpu.LaunchGuard
import Hypervi.Elf.Format
import Hypervi.Elf.Mapper
import Hypervi.Elf.Segments
import Hypervi.Elf.Relocations
import Hypervi.Elf.Bounds
import Hypervi.Memory.Reorder
import Hypervi.Elf.Touch
import Hypervi.Elf.Exchange
import Hypervi.Elf.Got
import Hypervi.Slots
import Hypervi.Loader.Allocator
import Hypervi.Loader.Console
import Hypervi.Loader.Fs
import Hypervi.Loader.Main
import Hypervi.Ept.Leaf
import Hypervi.Mtrr.Bounds
import Hypervi.Ept.Footprint
import Hypervi.Ept.ResolveSafety
import Hypervi.Ept.Failure
import Hypervi.Bits.Allowed
import Hypervi.Cpu.ControlBits
import Hypervi.Loader.GdtClone
import Hypervi.Loader.IdtClone
import Hypervi.Elf.Bss
import Hypervi.Elf.NullTables
import Hypervi.Loader.AllocatorInit
import Hypervi.Loader.Deallocate
import Hypervi.Loader.Cells
import Hypervi.X86.StringOps
import Hypervi.Freestanding.Memfuncs
import Hypervi.Freestanding.Strings
import Hypervi.Buffer
import Hypervi.Elf.Imports
import Hypervi.Numerals
import Hypervi.Freestanding.Itoa
import Hypervi.Freestanding.Formatting
import Hypervi.Freestanding.Llist
import Hypervi.Cpu.Resume
import Hypervi.Cpu.Progress
import Hypervi.Loader.Gfx
import Hypervi.Loader.Terminal
import Hypervi.Loader.Draw
import Hypervi.Freestanding.Memcpy
import Hypervi.Ept.Translation
import Hypervi.Loader.Boot
import Hypervi.Loader.BootRun
import Hypervi.Elf.Rebase
import Hypervi.Loader.PagePool
import Hypervi.X86.Convention
import Hypervi.Freestanding.X86Utils
import Hypervi.Freestanding.VmxCalls
import Hypervi.Freestanding.X86Values
import Hypervi.Cpu.HostState
import Hypervi.Loader.LogHex
import Hypervi.Loader.StringUtils
import Hypervi.Cpu.Vmexit
