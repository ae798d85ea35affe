import Ithaca.Pmm
import Ithaca.Vmm

/-!
# The kernel address space

`address_space.rs`: `KERNEL` is built on first use by `with_limine`: the window `[0xffff_8000_0000_0000, virtual_base)`
for the bump allocator and the hierarchy CR3 names for the mapper. `allocate(n)` reserves `n` pages and backs each with
a frame of the pmm, rolling back through a `FrameDropGuard` and a `DeallocRegion` on failure; `map_frames` reserves one
page per frame of the range and maps them, with no guard. A `for` loop over a range visits the list `PageRange.pages`
whenever the page after its last fits in 64 bits (`PageRange.iterate_eq`), as it does for every range of the window.
-/
namespace Ithaca

/-! ## Ranges as lists -/

/-- The page `4096 * i` bytes past `p`. -/
def Page.offset (p : Page) (i : Nat) : Page := ⟨p.addr + BitVec.ofNat 64 (4096 * i)⟩

/-- The pages `start + 4096 * i` for `i < r.len`: those a `for` loop over `r` visits when it does not panic
(`PageRange.iterate_eq`). -/
def PageRange.pages (r : PageRange) : List Page := (List.range r.len).map r.start.offset

/-- The frame `4096 * i` bytes past `f`. -/
def Frame.offset (f : Frame) (i : Nat) : Frame := ⟨f.addr + BitVec.ofNat 64 (4096 * i)⟩

/-- The frames `start + 4096 * i` for `i < rangeLen start end`: those a `for` loop over `r` visits when it does not
panic (`FrameRange.iterate_eq`). -/
def FrameRange.frames (r : FrameRange) : List Frame :=
  (List.range (rangeLen r.start.addr r.stop.addr)).map r.start.offset

@[simp] theorem PageRange.length_pages (r : PageRange) : r.pages.length = r.len := by simp [PageRange.pages]

/-- The words a `for` loop over `start..end` visits, as `f` maps them: all of them when the word after the last fits in
64 bits, and otherwise all but the last, followed by the panic. -/
theorem Step.rangeIter_map {α : Type} (f : BitVec 64 → α) (start stop : BitVec 64) :
    Prod.map (List.map f) id (Step.rangeIter start stop) =
      if start.toNat + 4096 * rangeLen start stop < 2 ^ 64 then
        ((List.range (rangeLen start stop)).map fun i => f (start + BitVec.ofNat 64 (4096 * i)), none)
      else (((List.range (rangeLen start stop)).map fun i => f (start + BitVec.ofNat 64 (4096 * i))).dropLast,
        some stepInvariantPanic) := by
  rw [Step.rangeIter_eq]
  split
  · simp [List.map_map, Function.comp_def]
  · rw [← List.map_dropLast]
    cases h : rangeLen start stop with
    | zero => rfl
    | succ k => simp [List.range_succ, List.map_map, Function.comp_def]

/-- A `for` loop over `r` visits `r.pages` and ends, when the page after the last fits in 64 bits; otherwise it visits
all but the last, and the call of `next` at the last panics. -/
theorem PageRange.iterate_eq (r : PageRange) :
    r.iterate = if r.start.addr.toNat + 4096 * r.len < 2 ^ 64 then (r.pages, none)
      else (r.pages.dropLast, some stepInvariantPanic) :=
  Step.rangeIter_map Page.mk r.start.addr r.stop.addr

example : (PageRange.mk ⟨0xffffffffffffe000⟩ ⟨0xffffffffffffffff⟩).iterate =
    ([⟨0xffffffffffffe000⟩], some stepInvariantPanic) := by
  rw [PageRange.iterate_eq]
  decide

/-- A `for` loop over `r` visits `r.frames` and ends, when the frame after the last fits in 64 bits; otherwise it
visits all but the last, and the call of `next` at the last panics. -/
theorem FrameRange.iterate_eq (r : FrameRange) :
    r.iterate = if r.start.addr.toNat + 4096 * rangeLen r.start.addr r.stop.addr < 2 ^ 64 then (r.frames, none)
      else (r.frames.dropLast, some stepInvariantPanic) :=
  Step.rangeIter_map Frame.mk r.start.addr r.stop.addr

/-- The `Step` contract of `Page` and of `Frame` for all addresses and counts: `forward_checked` and `backward_checked`
are inverse, fail exactly on overflow, and `steps_between` counts their steps, but rounds down. A `for` loop over `a..b`
visits the `rangeLen a b` elements of the list model, `steps_between(a, b)` of them exactly for whole pages, and panics
before the last when the element after it overflows. -/
theorem step_contract (a b : Page) (f g : Frame) (n : BitVec 64) :
    (a.forwardChecked n = some b ↔ b.backwardChecked n = some a) ∧
    (a.forwardChecked n = some b → a.stepsBetween b = some n) ∧
    (a.forwardChecked n = none ↔ 2 ^ 64 ≤ a.addr.toNat + n.toNat * 4096) ∧
    (a.stepsBetween b = some n →
      (a.forwardChecked n = some b ↔ (b.addr.toNat - a.addr.toNat) % 4096 = 0) ∧
      ((PageRange.mk a b).pages.length = n.toNat ↔ (b.addr.toNat - a.addr.toNat) % 4096 = 0)) ∧
    (PageRange.mk a b).iterate =
      (if a.addr.toNat + 4096 * (PageRange.mk a b).len < 2 ^ 64 then ((PageRange.mk a b).pages, none)
      else ((PageRange.mk a b).pages.dropLast, some stepInvariantPanic)) ∧
    (f.forwardChecked n = some g ↔ g.backwardChecked n = some f) ∧
    (f.forwardChecked n = some g → f.stepsBetween g = some n) ∧
    (f.forwardChecked n = none ↔ 2 ^ 64 ≤ f.addr.toNat + n.toNat * 4096) ∧
    (f.stepsBetween g = some n →
      (f.forwardChecked n = some g ↔ (g.addr.toNat - f.addr.toNat) % 4096 = 0) ∧
      ((FrameRange.mk f g).frames.length = n.toNat ↔ (g.addr.toNat - f.addr.toNat) % 4096 = 0)) ∧
    (FrameRange.mk f g).iterate =
      (if f.addr.toNat + 4096 * rangeLen f.addr g.addr < 2 ^ 64 then ((FrameRange.mk f g).frames, none)
      else ((FrameRange.mk f g).frames.dropLast, some stepInvariantPanic)) := by
  obtain ⟨a⟩ := a; obtain ⟨b⟩ := b; obtain ⟨f⟩ := f; obtain ⟨g⟩ := g
  simp only [Page.forwardChecked, Page.backwardChecked, Page.stepsBetween, Frame.forwardChecked,
    Frame.backwardChecked, Frame.stepsBetween, Option.map_eq_some', Option.map_eq_none', Page.mk.injEq,
    Frame.mk.injEq, exists_eq_right, PageRange.length_pages, PageRange.len, FrameRange.frames, List.length_map,
    List.length_range]
  exact ⟨Step.forwardChecked_iff_backwardChecked, Step.stepsBetween_of_forwardChecked, Step.forwardChecked_eq_none,
    fun h => ⟨Step.forwardChecked_of_stepsBetween h, rangeLen_of_stepsBetween h⟩, PageRange.iterate_eq _,
    Step.forwardChecked_iff_backwardChecked, Step.stepsBetween_of_forwardChecked, Step.forwardChecked_eq_none,
    fun h => ⟨Step.forwardChecked_of_stepsBetween h, rangeLen_of_stepsBetween h⟩, FrameRange.iterate_eq _⟩

/-- Two whole pages: `steps_between(0, 8192)` is 2 and `forward_checked(0, 2)` gives 8192 back. -/
theorem step_contract_two_pages :
    Page.stepsBetween ⟨0⟩ ⟨8192⟩ = some 2 ∧ Page.forwardChecked ⟨0⟩ 2 = some ⟨8192⟩ :=
  ⟨by decide, ((step_contract ⟨0⟩ ⟨8192⟩ ⟨0⟩ ⟨8192⟩ 2).2.2.2.1 (by decide)).1.2 (by decide)⟩

/-- A range of one page and one byte: `steps_between(0, 4097)` is 1, but `forward_checked(0, 1)` is 4096, and the
range yields two pages before it ends. -/
theorem step_contract_sub_page :
    Page.stepsBetween ⟨0⟩ ⟨4097⟩ = some 1 ∧ Page.forwardChecked ⟨0⟩ 1 = some ⟨4096⟩ ∧
      (PageRange.mk ⟨0⟩ ⟨4097⟩).next = .ok (some (⟨0⟩, ⟨⟨4096⟩, ⟨4097⟩⟩)) ∧
      (PageRange.mk ⟨4096⟩ ⟨4097⟩).next = .ok (some (⟨4096⟩, ⟨⟨8192⟩, ⟨4097⟩⟩)) ∧
      (PageRange.mk ⟨8192⟩ ⟨4097⟩).next = .ok none :=
  ⟨by decide, by decide, rfl, rfl, rfl⟩

/-! ## The model -/

/-- `AllocError`. -/
inductive AllocError
  | PhysAllocError (e : PhysAllocError)
  | VirtAllocError (e : VirtAllocError)
deriving DecidableEq, Repr

/-- `MapOptions { user, writable, disable_cache }`; `Default` sets all three to `false`. -/
structure MapOptions where
  user : Bool := false
  writable : Bool := false
  disableCache : Bool := false
deriving DecidableEq, Repr

/-- `KernelAddrSpaceInner { vmm, pmm, mapper }`; `pmm` is the unit struct `pmm::Global`, whose state is `GLOBAL`. -/
structure KernelAddrSpaceInner where
  vmm : BumpAllocator
  mapper : PageMapper

/-- `usize::MAX.wrapping_shl(47)`: the start of the kernel window. -/
def windowStart : BitVec 64 := BitVec.allOnes 64 <<< 47

/-- `NonNull::dangling()` for `u8`: the address 1, the alignment of `u8`. -/
def danglingPtr : BitVec 64 := 1

/-- The `unwrap()` of `KERNEL_ADDRESS_REQUEST`'s response. -/
def unwrapNonePanic : Panic := ⟨"called `Option::unwrap()` on a `None` value"⟩

/-- `assert_eq!(region_guard.mapper.translate_page(page), Some(frame))` (the operands' `Debug` text left out). -/
def assertEqPanic : Panic := ⟨"assertion `left == right` failed"⟩

/-- `unreachable!("attempted to map previously mapped page")`. -/
def unreachablePanic : Panic := ⟨"internal error: entered unreachable code: attempted to map previously mapped page"⟩

/-- `unmap_page(page).expect("failed to unmap page")` at `Err(PageNotMapped)`. -/
def failedToUnmapPanic : Panic := ⟨"failed to unmap page: PageNotMapped"⟩

/-- `panic!("page already mapped")` of `map_frames`. -/
def pageAlreadyMappedPanic : Panic := ⟨"page already mapped"⟩

/-- `steps_between(...).expect("invalid physical memory region")`. -/
def invalidRegionPanic : Panic := ⟨"invalid physical memory region"⟩

/-- `KernelAddrSpaceInner::with_limine()`: the kernel's virtual base (`unwrap`), `assert!(start <= end)`, the bump
allocator over `Page(start)..Page(end)` and `PageMapper::active()`. -/
def KernelAddrSpaceInner.withLimine (boot : BootInfo) : Except Panic KernelAddrSpaceInner := do
  let virtualBase ← match boot.kernelVirtualBase with
    | some v => .ok v
    | none => .error unwrapNonePanic
  if windowStart ≤ virtualBase then
    let hhdm ← Hhdm.withLimine boot
    let mapper ← PageMapper.active hhdm boot.cr3
    pure ⟨BumpAllocator.new ⟨⟨windowStart⟩, ⟨virtualBase⟩⟩, mapper⟩
  else .error ⟨"assertion failed: start <= end"⟩

/-- `DeallocRegion::drop`: each page of the region is unmapped (`expect("failed to unmap page")`) and its frame
freed. -/
def PageMapper.deallocRegion (m : PageMapper) : List Page → PhysMem → Option GlobalInner →
    Except Panic (PhysMem × Option GlobalInner)
  | [], mem, st => .ok (mem, st)
  | page :: ps, mem, st => do
    let (r, mem) ← m.unmapPage mem page
    match r with
    | .error _ => .error failedToUnmapPanic
    | .ok frame =>
      let (mem, st) ← Global.deallocateFrame mem st frame
      m.deallocRegion ps mem st

/-- The flags `allocate` maps its pages with: `PRESENT | WRITABLE`. -/
def allocFlags : PageFlags := .present ||| .writable

/-- The `for page in pages.clone()` loop of `allocate`, with `region_guard.region` being `start..stop`. Each round
takes a frame (on `Err` the region is undone), maps the page to it, and on success moves the region's end past the
page and checks the translation; on `PhysAllocError` the frame guard frees the frame, then the region is undone. -/
def KernelAddrSpaceInner.allocateLoop (boot : BootInfo) (m : PageMapper) (start : Page) :
    List Page → Page → PhysMem → Option GlobalInner →
      Except Panic (Except PhysAllocError Unit × PhysMem × Option GlobalInner)
  | [], _, mem, st => .ok (.ok (), mem, st)
  | page :: ps, stop, mem, st => do
    let (r, st) ← Global.allocateFrame boot mem st
    match r with
    | .error e =>
      let (mem, st) ← m.deallocRegion (PageRange.pages ⟨start, stop⟩) mem st
      pure (.error e, mem, st)
    | .ok frame =>
      let (r, mem, st) ← m.mapPage (Global.allocator boot) page frame allocFlags mem st
      match r with
      | .ok () =>
        let stop ← page.forward 1
        let t ← m.translatePage mem page
        if t = some frame then KernelAddrSpaceInner.allocateLoop boot m start ps stop mem st
        else .error assertEqPanic
      | .error (.PhysAllocError e) =>
        let (mem, st) ← Global.deallocateFrame mem st frame
        let (mem, st) ← m.deallocRegion (PageRange.pages ⟨start, stop⟩) mem st
        pure (.error e, mem, st)
      | .error .PageAlreadyMapped => .error unreachablePanic

/-- `KernelAddrSpaceInner::allocate(pages)`: reserve the region (`?` turns `VirtAllocError` into `AllocError`), run
the loop from the empty region `start..start`, and return the region's start. -/
def KernelAddrSpaceInner.allocate (boot : BootInfo) (k : KernelAddrSpaceInner) (pages : NonZeroUsize) (mem : PhysMem)
    (st : Option GlobalInner) :
    Except Panic (Except AllocError (BitVec 64) × KernelAddrSpaceInner × PhysMem × Option GlobalInner) :=
  match k.vmm.allocateRegion pages with
  | (.error e, vmm) => .ok (.error (.VirtAllocError e), { k with vmm }, mem, st)
  | (.ok region, vmm) => do
    let (r, mem, st) ← allocateLoop boot k.mapper region.start region.pages region.start mem st
    match r with
    | .error e => pure (.error (.PhysAllocError e), { k with vmm }, mem, st)
    | .ok () => pure (.ok region.start.addr, { k with vmm }, mem, st)

/-- The flags of `map_frames`: `PRESENT`, then `WRITABLE`, `USER` and `DISABLE_CACHE` as the options ask. -/
def MapOptions.flags (o : MapOptions) : PageFlags :=
  let flags := PageFlags.present
  let flags := if o.writable then flags ||| .writable else flags
  let flags := if o.user then flags ||| .user else flags
  if o.disableCache then flags ||| .disableCache else flags

/-- The `for (page, frame) in pages.clone().zip(frames)` loop of `map_frames`: no rollback. -/
def PageMapper.mapFramesLoop (boot : BootInfo) (m : PageMapper) (flags : PageFlags) :
    List (Page × Frame) → PhysMem → Option GlobalInner →
      Except Panic (Except PhysAllocError Unit × PhysMem × Option GlobalInner)
  | [], mem, st => .ok (.ok (), mem, st)
  | (page, frame) :: ps, mem, st => do
    let (r, mem, st) ← m.mapPage (Global.allocator boot) page frame flags mem st
    match r with
    | .ok () => m.mapFramesLoop boot flags ps mem st
    | .error .PageAlreadyMapped => .error pageAlreadyMappedPanic
    | .error (.PhysAllocError e) => pure (.error e, mem, st)

/-- `KernelAddrSpaceInner::map_frames(frames, map_options)`: `steps_between` pages (`expect`), the dangling pointer
for none, else reserve them and map them to the range's frames in order. -/
def KernelAddrSpaceInner.mapFrames (boot : BootInfo) (k : KernelAddrSpaceInner) (frames : FrameRange)
    (options : MapOptions) (mem : PhysMem) (st : Option GlobalInner) :
    Except Panic (Except AllocError (BitVec 64) × KernelAddrSpaceInner × PhysMem × Option GlobalInner) := do
  let n ← match frames.start.stepsBetween frames.stop with
    | some n => .ok n
    | none => .error invalidRegionPanic
  if h : n = 0 then pure (.ok danglingPtr, k, mem, st)
  else
    match k.vmm.allocateRegion ⟨n, h⟩ with
    | (.error e, vmm) => pure (.error (.VirtAllocError e), { k with vmm }, mem, st)
    | (.ok region, vmm) => do
      let (r, mem, st) ← k.mapper.mapFramesLoop boot options.flags (region.pages.zip frames.frames) mem st
      match r with
      | .error e => pure (.error (.PhysAllocError e), { k with vmm }, mem, st)
      | .ok () => pure (.ok region.start.addr, { k with vmm }, mem, st)

/-! ## The address space's calls -/

/-- A call of `AddrSpace::kernel()`. -/
inductive AddrSpaceCall
  | allocate (pages : NonZeroUsize)
  | mapFrames (frames : FrameRange) (options : MapOptions)

/-- The state the memory core keeps: physical memory, `GLOBAL` and `KERNEL`. -/
structure Machine where
  mem : PhysMem
  global : Option GlobalInner
  kernel : Option KernelAddrSpaceInner

/-- `with_kernel_address_space`: `KERNEL`'s value, built by `with_limine` on first use. -/
def withKernelAddressSpace (boot : BootInfo) : Option KernelAddrSpaceInner → Except Panic KernelAddrSpaceInner
  | some k => .ok k
  | none => KernelAddrSpaceInner.withLimine boot

/-- One call of `AddrSpace::allocate` or `AddrSpace::map_frames`. -/
def Machine.call (boot : BootInfo) (s : Machine) : AddrSpaceCall → Except Panic (Except AllocError (BitVec 64) × Machine)
  | .allocate n => do
    let k ← withKernelAddressSpace boot s.kernel
    let (r, k, mem, global) ← k.allocate boot n s.mem s.global
    pure (r, ⟨mem, global, some k⟩)
  | .mapFrames frames options => do
    let k ← withKernelAddressSpace boot s.kernel
    let (r, k, mem, global) ← k.mapFrames boot frames options s.mem s.global
    pure (r, ⟨mem, global, some k⟩)

/-- The results of a sequence of calls and the state after them. -/
def runAddrSpace (boot : BootInfo) : Machine → List AddrSpaceCall →
    Except Panic (List (Except AllocError (BitVec 64)) × Machine)
  | s, [] => .ok ([], s)
  | s, c :: cs => do
    let (r, s) ← s.call boot c
    let (rs, s) ← runAddrSpace boot s cs
    pure (r :: rs, s)

end Ithaca
