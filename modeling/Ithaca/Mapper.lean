import Ithaca.Entry

/-!
# Physical memory and the page-table walker

The code reaches physical memory through the direct map (`hhdm.rs`: `to_virtual(phys) = phys + base`); the model keeps
the memory physical, one 64-bit word at each address, and keeps of `to_virtual` and `to_physical` the arithmetic the
code does, which panics on overflow in a debug build. `PageMapper` (`address_space/x86_64.rs`) walks the four-level
hierarchy whose top table is the frame CR3 names, taking at each level the index
`vaddr.wrapping_shr(12 + 9 * level) & 0x1ff`; `map_page` installs a zeroed table where an entry is absent and stops
with `todo!` at a present huge-page entry, and `get_entry` follows every present entry.
-/

namespace Ithaca

/-- Physical memory: the 64-bit word at each address (the code reads and writes only 8-aligned words). -/
abbrev PhysMem := Nat → BitVec 64

/-- Store the word `v` at address `a`. -/
def PhysMem.write (mem : PhysMem) (a : Nat) (v : BitVec 64) : PhysMem := fun x => if x = a then v else mem x

/-- The 4096 bytes of frame `f`, as addresses. -/
def Frame.InRegion (f : Frame) (x : Nat) : Prop := f.addr.toNat ≤ x ∧ x < f.addr.toNat + 4096

instance (f : Frame) (x : Nat) : Decidable (f.InRegion x) := inferInstanceAs (Decidable (_ ∧ _))

/-- `ptr::write(frame, PageTable::empty())`: the frame's 4096 bytes become zero (`Zeroable::zeroed()`). -/
def PhysMem.zeroFrame (mem : PhysMem) (f : Frame) : PhysMem := fun x => if f.InRegion x then 0 else mem x

/-- The address of entry `i` of the table in frame `t` (`&page_table.entries[i]`). -/
def slotAddr (t : Frame) (i : Nat) : Nat := t.addr.toNat + 8 * i

/-- `page_table.entries[i].get()` for the table in frame `t`. -/
def entryAt (mem : PhysMem) (t : Frame) (i : Nat) : PageTableEntry := ⟨mem (slotAddr t i)⟩

@[simp] theorem write_apply (mem : PhysMem) (a x : Nat) (v : BitVec 64) :
    mem.write a v x = if x = a then v else mem x := rfl

@[simp] theorem zeroFrame_apply (mem : PhysMem) (f : Frame) (x : Nat) :
    mem.zeroFrame f x = if f.InRegion x then 0 else mem x := rfl

/-! ## The direct map -/

/-- `Hhdm { base }`: the offset of the higher-half direct map. -/
structure Hhdm where
  base : BitVec 64
deriving DecidableEq, Repr

/-- `Hhdm::to_virtual(phys)`: `phys.0 + self.base`. -/
def Hhdm.toVirtual (h : Hhdm) (phys : BitVec 64) : Except Panic (BitVec 64) := addOrPanic phys h.base

/-- `Hhdm::to_physical(addr)`: `addr as u64 - self.base`. -/
def Hhdm.toPhysical (h : Hhdm) (virt : BitVec 64) : Except Panic (BitVec 64) := subOrPanic virt h.base

/-- The direct map reaches frame `f`: `to_virtual` of its address does not overflow. -/
def Hhdm.Covers (h : Hhdm) (f : Frame) : Prop := f.addr.toNat + h.base.toNat < 2 ^ 64

instance (h : Hhdm) (f : Frame) : Decidable (h.Covers f) := inferInstanceAs (Decidable (_ < _))

theorem Hhdm.toVirtual_of_covers {h : Hhdm} {f : Frame} (hc : h.Covers f) :
    h.toVirtual f.addr = .ok (f.addr + h.base) :=
  addOrPanic_of_lt hc

/-- The direct map reaches frame `f` at a nonzero address: `to_virtual` neither overflows nor builds the null pointer a
`NonNull` must not hold (a reference to a table there, wrapped in `Some`, would read as `None`). -/
def Linkable (base : BitVec 64) (f : Frame) : Prop := f.addr.toNat + base.toNat < 2 ^ 64 ∧ f.addr.toNat + base.toNat ≠ 0

instance (base : BitVec 64) (f : Frame) : Decidable (Linkable base f) := inferInstanceAs (Decidable (_ ∧ _))

/-! ## The mapper -/

/-- `PhysAllocError`. -/
structure PhysAllocError where
deriving DecidableEq, Repr

/-- What `map_page` needs of its `phys_alloc: &impl PhysicalMemoryAllocator`: `allocate_frame`, which may read
physical memory (the pmm's freelist lives in freed frames) and changes the allocator's own state `σ`. -/
structure FrameAllocator (σ : Type) where
  allocateFrame : PhysMem → σ → Except Panic (Except PhysAllocError Frame × σ)

/-- `PageMapper { l4, hhdm }`, with the frame of the top table `l4` points to. `PageMapper::active` builds `l4` as
`to_virtual` of the frame CR3 names, so that frame is page-aligned and the direct map reaches it. -/
structure PageMapper where
  l4 : Frame
  hhdm : Hhdm
  l4_aligned : l4.addr.toNat % 4096 = 0
  l4_covered : hhdm.Covers l4

/-- `cr3::read()`: `Frame(PhysAddr(bits & !0xfff))`. -/
def cr3Frame (bits : BitVec 64) : Frame := ⟨bits &&& ~~~0xfff⟩

theorem cr3Frame_aligned (bits : BitVec 64) : (cr3Frame bits).addr.toNat % 4096 = 0 := by
  have : ∀ i < 12, (cr3Frame bits).addr.toNat.testBit i = false := by
    intro i hi
    simp only [cr3Frame, BitVec.testBit_toNat, BitVec.getLsbD_and, BitVec.getLsbD_not]
    have : (0xfff#64).getLsbD i = true := by
      rw [BitVec.getLsbD_ofNat]; interval_cases i <;> rfl
    simp [this]
  have h : (cr3Frame bits).addr.toNat % 2 ^ 12 = 0 := Nat.eq_of_testBit_eq fun i => by
    rw [Nat.testBit_mod_two_pow, Nat.zero_testBit]
    by_cases hi : i < 12
    · rw [this i hi]; simp
    · simp [hi]
  simpa using h

/-- `PageMapper::active()`: the hierarchy CR3 names; `to_virtual` of its frame panics if it overflows. -/
def PageMapper.active (hhdm : Hhdm) (cr3 : BitVec 64) : Except Panic PageMapper :=
  if h : hhdm.Covers (cr3Frame cr3) then .ok ⟨cr3Frame cr3, hhdm, cr3Frame_aligned cr3, h⟩
  else .error ⟨"attempt to add with overflow"⟩

/-- The levels of the loops `for level in (1..4).rev()`. -/
def levels : List Nat := [3, 2, 1]

/-- `vaddr.wrapping_shr(12 + 9 * level) & 0x1ff`: the index into the table of `level + 1`. -/
def tableIndex (vaddr : BitVec 64) (level : Nat) : Nat :=
  ((vaddr >>> ((12 + 9 * level) % 64)) &&& 0x1ff#64).toNat

/-- The loop of `get_entry` from the table `t`: at an absent entry there is no slot, otherwise go to the frame the
entry names. -/
def PageMapper.getEntryLoop (m : PageMapper) (mem : PhysMem) (addr : BitVec 64) :
    List Nat → Frame → Except Panic (Option Frame)
  | [], t => .ok (some t)
  | i :: is, t =>
    let pte := entryAt mem t (tableIndex addr i)
    if !pte.flags.contains .present then .ok none
    else do
      let _ ← m.hhdm.toVirtual pte.frame.addr
      m.getEntryLoop mem addr is pte.frame

/-- `get_entry(addr)`: the address of the level-1 entry for `addr`, if every level above it is present. -/
def PageMapper.getEntry (m : PageMapper) (mem : PhysMem) (addr : BitVec 64) : Except Panic (Option Nat) := do
  match ← m.getEntryLoop mem addr levels m.l4 with
  | none => pure none
  | some t => pure (some (slotAddr t (tableIndex addr 0)))

/-- `translate_page(page)`: the frame of the level-1 entry, if it is present. -/
def PageMapper.translatePage (m : PageMapper) (mem : PhysMem) (page : Page) : Except Panic (Option Frame) := do
  match ← m.getEntry mem page.addr with
  | none => pure none
  | some a =>
    let entry : PageTableEntry := ⟨mem a⟩
    pure (if entry.flags.contains .present then some entry.frame else none)

/-- `UnmapError`. -/
inductive UnmapError
  | PageNotMapped
deriving DecidableEq, Repr

/-- `unmap_page(page)`: clear the level-1 entry to `PageTableEntry::new(PageFlags::empty(), frame)` and return its
frame; then `tlb_flush(page)`, which changes no memory. -/
def PageMapper.unmapPage (m : PageMapper) (mem : PhysMem) (page : Page) :
    Except Panic (Except UnmapError Frame × PhysMem) := do
  match ← m.getEntry mem page.addr with
  | none => pure (.error .PageNotMapped, mem)
  | some a =>
    let pte : PageTableEntry := ⟨mem a⟩
    if !pte.flags.contains .present then pure (.error .PageNotMapped, mem)
    else
      let frame := pte.frame
      let pte := PageTableEntry.new .empty frame
      pure (.ok frame, mem.write a pte.bits)

/-- `MapError`. -/
inductive MapError
  | PhysAllocError (e : PhysAllocError)
  | PageAlreadyMapped
deriving DecidableEq, Repr

/-- The flags of a new intermediate table: `PRESENT | WRITABLE | USER`. -/
def tableFlags : PageFlags := .present ||| .writable ||| .user

/-- The `todo!` of `map_page` at a present huge-page entry. -/
def hugePagePanic : Panic := ⟨"not yet implemented: huge page handling"⟩

section MapPage

variable {σ : Type} (m : PageMapper) (A : FrameAllocator σ) (vaddr : BitVec 64)

/-- The loop of `map_page` from the table `t`: an absent entry gets a freshly allocated frame, zeroed and installed
with `PRESENT | WRITABLE | USER`; a present huge-page entry is `todo!`; then go to the entry's frame. -/
def PageMapper.mapLoop : List Nat → Frame → PhysMem → σ → Except Panic (Except MapError Frame × PhysMem × σ)
  | [], t, mem, s => .ok (.ok t, mem, s)
  | level :: ls, t, mem, s =>
    let a := slotAddr t (tableIndex vaddr level)
    let entry : PageTableEntry := ⟨mem a⟩
    if !entry.flags.contains .present then do
      let (r, s) ← A.allocateFrame mem s
      match r with
      | .error e => pure (.error (.PhysAllocError e), mem, s)
      | .ok f =>
        let _ ← m.hhdm.toVirtual f.addr
        let mem := mem.zeroFrame f
        let entry := PageTableEntry.new tableFlags f
        let mem := mem.write a entry.bits
        let _ ← m.hhdm.toVirtual entry.frame.addr
        PageMapper.mapLoop ls entry.frame mem s
    else if entry.flags.contains .hugePage then .error hugePagePanic
    else do
      let _ ← m.hhdm.toVirtual entry.frame.addr
      PageMapper.mapLoop ls entry.frame mem s

/-- `map_page(page, frame, flags, phys_alloc)`: walk down creating what is missing, then write the level-1 entry
`PageTableEntry::new(flags, frame)` unless it is present; then `tlb_flush(page)`, which changes no memory. -/
def PageMapper.mapPage (page : Page) (frame : Frame) (flags : PageFlags) (mem : PhysMem) (s : σ) :
    Except Panic (Except MapError Unit × PhysMem × σ) := do
  match ← m.mapLoop A page.addr levels m.l4 mem s with
  | (.error e, mem, s) => pure (.error e, mem, s)
  | (.ok t, mem, s) =>
    let a := slotAddr t (tableIndex page.addr 0)
    let entry := PageTableEntry.new flags frame
    if (⟨mem a⟩ : PageTableEntry).flags.contains .present then pure (.error .PageAlreadyMapped, mem, s)
    else pure (.ok (), mem.write a entry.bits, s)

end MapPage

end Ithaca
