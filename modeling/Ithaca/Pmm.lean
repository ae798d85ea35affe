import Ithaca.Mapper

/-!
# The physical frame allocator

`pmm.rs`: `allocate_frame` builds `GlobalInner` from the memory map on first use, pops the freelist, and otherwise
carves the next 4096 bytes of the current usable entry (`memmap_pop`). `deallocate_frame` pushes the frame: its first
word, reached through the direct map, becomes the old head. The head and each `next` are `Option<HigherHalf<Node>>`,
one word with `None` the null pointer, so the model keeps them as words. `Node` is `align(4096)`, and a debug build
checks that alignment at each dereference of a `*mut Node` (`derefNode`).
-/
namespace Ithaca

/-! ## What the bootloader hands over -/

/-- Limine's `MemoryMapEntryType`. -/
inductive MemoryMapEntryType
  | Usable
  | Reserved
  | AcpiReclaimable
  | AcpiNvs
  | BadMemory
  | BootloaderReclaimable
  | KernelAndModules
  | Framebuffer
deriving DecidableEq, Repr

/-- Limine's `MemmapEntry { base, len, typ }`. -/
structure MemmapEntry where
  base : BitVec 64
  len : BitVec 64
  typ : MemoryMapEntryType
deriving DecidableEq, Repr

/-- The responses of the Limine requests the memory core reads, and the value of CR3 at boot. -/
structure BootInfo where
  /-- `MemmapRequest`'s entries, in firmware order. -/
  memmap : Option (List MemmapEntry)
  /-- `HhdmRequest`'s `offset`. -/
  hhdmOffset : Option (BitVec 64)
  /-- `KernelAddressRequest`'s `virtual_base`. -/
  kernelVirtualBase : Option (BitVec 64)
  cr3 : BitVec 64
deriving Repr

/-- `Hhdm::with_limine()`. -/
def Hhdm.withLimine (boot : BootInfo) : Except Panic Hhdm :=
  match boot.hhdmOffset with
  | some base => .ok ⟨base⟩
  | none => .error ⟨"failed to retrieve higher half mapping"⟩

/-! ## The allocator -/

/-- `Range<u64>`. -/
structure U64Range where
  start : BitVec 64
  stop : BitVec 64
deriving DecidableEq, Repr

/-- `GlobalInner { hhdm, free, current, entries }`: `free` is the word `Option<HigherHalf<Node>>` is stored as (zero
for `None`), `entries` what is left of the memory map's iterator. -/
structure GlobalInner where
  hhdm : Hhdm
  free : BitVec 64
  current : U64Range
  entries : List MemmapEntry
deriving Repr

/-- `GlobalInner::with_limine()`: `None` without a memory map; the freelist starts empty and `current` at `0..0`. -/
def GlobalInner.withLimine (boot : BootInfo) : Except Panic (Option GlobalInner) :=
  match boot.memmap with
  | none => .ok none
  | some entries => do
    let hhdm ← Hhdm.withLimine boot
    pure (some ⟨hhdm, 0, ⟨0, 0⟩, entries⟩)

/-- The `while (self.current.end - self.current.start) < 4096` loop of `memmap_pop`: each round takes the next entry
and makes a usable one `current`; `entries.next()?` ends the call with `None` once none is left. Returns whether a
frame was found, with `current` and the entries as the loop leaves them. -/
def memmapLoop : U64Range → List MemmapEntry → Except Panic (Bool × U64Range × List MemmapEntry)
  | cur, es => do
    let len ← subOrPanic cur.stop cur.start
    if len.toNat < 4096 then
      match es with
      | [] => pure (false, cur, [])
      | e :: es =>
        if e.typ != .Usable then memmapLoop cur es
        else do
          let stop ← addOrPanic e.base e.len
          memmapLoop ⟨e.base, stop⟩ es
    else pure (true, cur, es)

/-- `memmap_pop()`: the frame at `current.start`, which moves on by 4096. -/
def GlobalInner.memmapPop (g : GlobalInner) : Except Panic (Option Frame × GlobalInner) := do
  let (found, cur, es) ← memmapLoop g.current g.entries
  if found then do
    let start ← addOrPanic cur.start 4096
    pure (some ⟨cur.start⟩, { g with current := ⟨start, cur.stop⟩, entries := es })
  else pure (none, { g with current := cur, entries := es })

/-- The check a debug build (rustc 1.70 and later) makes before it dereferences a `*mut Node`: the pointer must be a
multiple of `Node`'s alignment, 4096, or the kernel stops with core's message. -/
def derefNode (ptr : BitVec 64) : Except Panic Unit :=
  if ptr.toNat % 4096 = 0 then .ok ()
  else .error ⟨"misaligned pointer dereference: address must be a multiple of 0x1000 but is 0x" ++
    String.mk (Nat.toDigits 16 ptr.toNat)⟩

/-- `freelist_pop()`: the head's frame (`to_physical(head)`), and the head becomes the node's `next`, read through
`*head.as_ptr()`. -/
def GlobalInner.freelistPop (g : GlobalInner) (mem : PhysMem) : Except Panic (Option Frame × GlobalInner) :=
  if g.free = 0 then .ok (none, g)
  else do
    derefNode g.free
    let phys ← g.hhdm.toPhysical g.free
    pure (some ⟨phys⟩, { g with free := mem phys.toNat })

/-- `freelist_push(frame)`: the node at `to_virtual(frame)` gets `next = self.free` through `*ptr.as_ptr()`, and the
head becomes that pointer. -/
def GlobalInner.freelistPush (g : GlobalInner) (mem : PhysMem) (frame : Frame) :
    Except Panic (PhysMem × GlobalInner) := do
  let ptr ← g.hhdm.toVirtual frame.addr
  derefNode ptr
  pure (mem.write frame.addr.toNat g.free, { g with free := ptr })

/-- `GLOBAL`'s value as `allocate_frame` takes it: the state, built on first use. -/
def Global.inner (boot : BootInfo) : Option GlobalInner → Except Panic (Option GlobalInner)
  | some g => .ok (some g)
  | none => GlobalInner.withLimine boot

/-- `Global::allocate_frame()`: build `GlobalInner` on first use (`PhysAllocError` without a memory map), then the
freelist, then the memory map. -/
def Global.allocateFrame (boot : BootInfo) (mem : PhysMem) (st : Option GlobalInner) :
    Except Panic (Except PhysAllocError Frame × Option GlobalInner) := do
  match ← Global.inner boot st with
  | none => pure (.error ⟨⟩, none)
  | some g =>
    let (r, g) ← g.freelistPop mem
    match r with
    | some f => pure (.ok f, some g)
    | none =>
      let (r, g) ← g.memmapPop
      match r with
      | some f => pure (.ok f, some g)
      | none => pure (.error ⟨⟩, some g)

/-- `Global::deallocate_frame(frame)`. -/
def Global.deallocateFrame (mem : PhysMem) (st : Option GlobalInner) (frame : Frame) :
    Except Panic (PhysMem × Option GlobalInner) :=
  match st with
  | none => .error ⟨"deallocation prior to pmm init"⟩
  | some g => do
    let (mem, g) ← g.freelistPush mem frame
    pure (mem, some g)

/-- `pmm::Global` as the allocator `map_page` takes. -/
def Global.allocator (boot : BootInfo) : FrameAllocator (Option GlobalInner) := ⟨Global.allocateFrame boot⟩

/-! ## Runs of calls -/

/-- A call of the allocator. -/
inductive PmmCall
  | allocate
  | deallocate (frame : Frame)
deriving DecidableEq, Repr

/-- The results of a sequence of calls (`some` for an allocation, `none` for a deallocation), with the memory and the
state after them. -/
def runPmm (boot : BootInfo) :
    PhysMem → Option GlobalInner → List PmmCall →
      Except Panic (List (Option (Except PhysAllocError Frame)) × PhysMem × Option GlobalInner)
  | mem, st, [] => .ok ([], mem, st)
  | mem, st, .allocate :: cs => do
    let (r, st) ← Global.allocateFrame boot mem st
    let (rs, mem, st) ← runPmm boot mem st cs
    pure (some r :: rs, mem, st)
  | mem, st, .deallocate f :: cs => do
    let (mem, st) ← Global.deallocateFrame mem st f
    let (rs, mem, st) ← runPmm boot mem st cs
    pure (none :: rs, mem, st)

end Ithaca
