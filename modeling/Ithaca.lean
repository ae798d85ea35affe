import Ithaca.Types
import Ithaca.Vmm
import Ithaca.SyncBump
import Ithaca.Entry
import Ithaca.Mapper
import Ithaca.Walk
import Ithaca.Refinement
import Ithaca.Pmm
import Ithaca.PmmRefinement
import Ithaca.AddrSpace
import Ithaca.Pool
import Ithaca.Allocate
import Ithaca.MapFrames
import Ithaca.LeafWrites
import Ithaca.System
import Ithaca.HugePages
import Ithaca.Interrupts
import Ithaca.Idt
import Ithaca.Serial
import Ithaca.Pic
import Ithaca.Apic
import Ithaca.IdleLoop
