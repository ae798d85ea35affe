import Ithaca.Allocate

/-!
# `map_frames`

`KernelAddrSpaceInner::map_frames(frames, options)` reserves `n = (end - start) / 4096` pages and maps the `i`-th to
the frame `start + 4096 * i`, one `map_page` each, with no guard: when `map_page` runs out of frames the pages mapped
so far stay mapped. `FramesInv` is the loop's invariant, `mapFrames_spec` says what every call leaves, and
`mapFrames_correct` reads it as `translate_page` sees it. `translate_page` reads bits 12..47 of the address, so the
non-canonical alias of the window's first page translates as that page does (`mapFrames_alias_changes`).
-/

namespace Ithaca

/-! ## The pairs of the loop -/

/-- The number of pages `map_frames` maps: `(end - start) / 4096`. -/
def FrameRange.count (r : FrameRange) : Nat := (r.stop.addr.toNat - r.start.addr.toNat) / 4096

/-- `steps_between` of a range with `start <= end` is its count. -/
theorem FrameRange.stepsBetween_of_le {r : FrameRange} (h : r.start.addr.toNat ≤ r.stop.addr.toNat) :
    ∃ n : BitVec 64, r.start.stepsBetween r.stop = some n ∧ n.toNat = r.count := by
  refine ⟨(r.stop.addr - r.start.addr) / 4096, ?_, ?_⟩
  · simp [Frame.stepsBetween, Step.stepsBetween, checkedSub, h]
  · rw [BitVec.toNat_udiv, BitVec.toNat_sub_of_le (BitVec.le_def.2 h)]
    rfl

/-- The options' flags hold `PRESENT`. -/
theorem MapOptions.flags_present (o : MapOptions) : o.flags.bits.getLsbD 0 = true := by
  rcases o with ⟨_ | _, _ | _, _ | _⟩ <;> decide

/-- The pairs the loop runs over: `zip` stops with the region, which is no longer than the range of frames. -/
theorem zip_pages_frames (pos : Page) (r : FrameRange) {n : Nat} (hn : n ≤ rangeLen r.start.addr r.stop.addr) :
    ((List.range n).map pos.offset).zip r.frames = (List.range n).map fun i => (pos.offset i, r.start.offset i) := by
  apply List.ext_getElem
  · simp only [List.length_zip, List.length_map, List.length_range, FrameRange.frames]
    omega
  · intro i _ _
    simp [FrameRange.frames]

open AllocAux

/-! ## The loop's invariant -/

/-- The invariant of `map_frames`'s loop, from the call's memory `mem0`, pmm state `st0` and pool `P0`, over the pairs
mapped so far `D`: the hierarchy stays well formed, the tables come from the front of the pool (`PoolJ`), every page
of `D` has its level-1 entry, and every other key its old translation. -/
structure FramesInv (es : List MemmapEntry) (base : BitVec 64) (m : PageMapper) (flags : PageFlags) (mem0 : PhysMem)
    (st0 : Option GlobalInner) (P0 : List Frame) (D : List (Page × Frame)) (mem : PhysMem) (st : Option GlobalInner) :
    Prop where
  wf : WellFormed mem m
  pool : PoolJ es base m mem0 st0 P0 mem st
  leaf : ∀ d ∈ D, leafEntry mem m.l4 (pageKey d.1.addr) = some (PageTableEntry.new flags d.2)
  others : ∀ k, k ∉ D.map (fun d => pageKey d.1.addr) → translateKey mem m.l4 k = translateKey mem0 m.l4 k
  noHuge : ∀ k, NoHugeOnWalk mem0 m.l4 k → NoHugeOnWalk mem m.l4 k

section Inv

variable {es : List MemmapEntry} {base : BitVec 64} {m : PageMapper} {flags : PageFlags} {mem0 : PhysMem}
  {st0 : Option GlobalInner} {P0 : List Frame} {D : List (Page × Frame)} {mem mem1 : PhysMem}
  {st st1 : Option GlobalInner} {σ : Type} {J : PhysMem → σ → Prop} {s : σ} {p : Page} {f : Frame}

/-- Before the first round nothing is mapped. -/
theorem FramesInv.init (hw : WellFormed mem0 m) (hrep : PoolRep es base mem0 st0 P0) :
    FramesInv es base m flags mem0 st0 P0 [] mem0 st0 :=
  ⟨hw, ⟨.inr rfl, [], P0, rfl, hrep, fun t => by simp⟩, nofun, fun _ _ => rfl, fun _ h => h⟩

/-- A page mapped by `map_page` joins `D`. -/
theorem FramesInv.mapped (h : FramesInv es base m flags mem0 st0 P0 D mem st)
    (post : MapPagePost m J (pageKey p.addr) f flags mem s (.ok ()) mem1 s') (hfl : flags.bits.getLsbD 0 = true)
    (hJ : PoolJ es base m mem0 st0 P0 mem1 st1) :
    FramesInv es base m flags mem0 st0 P0 (D ++ [(p, f)]) mem1 st1 where
  wf := post.wf
  pool := hJ
  leaf d hd := by
    rcases List.mem_append.1 hd with hd | hd
    · exact post.keep.leafEntry (h.leaf d hd) (PageTableEntry.new_present _ hfl)
    · rw [List.mem_singleton.1 hd]
      exact post.entry rfl
  others k hk := by
    simp only [List.map_append, List.map_cons, List.map_nil, List.mem_append, List.mem_singleton, not_or] at hk
    rw [post.mapped rfl k, if_neg hk.2]
    exact h.others k hk.1
  noHuge k hk := post.noHuge k (h.noHuge k hk)

/-- After a `map_page` that ran out of frames the pages mapped so far keep their entries. -/
theorem FramesInv.failed {e : PhysAllocError} (h : FramesInv es base m flags mem0 st0 P0 D mem st)
    (post : MapPagePost m J (pageKey p.addr) f flags mem s (.error (.PhysAllocError e)) mem1 s')
    (hfl : flags.bits.getLsbD 0 = true) (hJ : PoolJ es base m mem0 st0 P0 mem1 st1) :
    FramesInv es base m flags mem0 st0 P0 D mem1 st1 where
  wf := post.wf
  pool := hJ
  leaf d hd := post.keep.leafEntry (h.leaf d hd) (PageTableEntry.new_present _ hfl)
  others k hk := (post.failed e rfl k).trans (h.others k hk)
  noHuge k hk := post.noHuge k (h.noHuge k hk)

end Inv

/-! ## The loop -/

section Loop

variable {es : List MemmapEntry} {base : BitVec 64} {m : PageMapper} {flags : PageFlags} {mem0 : PhysMem}
  {st0 : Option GlobalInner} {P0 : List Frame} {boot : BootInfo} (hmm : boot.memmap = some es)
  (hh : boot.hhdmOffset = some base) (hent : ∀ e ∈ es, e.typ = .Usable → e.base.toNat + e.len.toNat < 2 ^ 64)
  (hm : m.hhdm = ⟨base⟩) (hP0 : PoolOk base m mem0 P0) (hfl : flags.bits.getLsbD 0 = true)
include hmm hh hent hm hP0 hfl

/-- `map_frames`'s loop, over pairs whose pages have distinct keys, unmapped at the call's start and with no huge page
on their walks, returns and stops at a split `D' ++ ps'` of the pairs: the pairs `D'` are mapped, and `ps'` is empty
exactly when the loop returns `Ok`. -/
theorem mapFramesLoop_spec : ∀ (ps D : List (Page × Frame)) (mem : PhysMem) (st : Option GlobalInner),
    FramesInv es base m flags mem0 st0 P0 D mem st → ((D ++ ps).map fun d => pageKey d.1.addr).Nodup →
    (∀ d ∈ ps, translateKey mem0 m.l4 (pageKey d.1.addr) = none ∧ NoHugeOnWalk mem0 m.l4 (pageKey d.1.addr)) →
    ∃ r mem' st', m.mapFramesLoop boot flags ps mem st = .ok (r, mem', st') ∧ ∃ D' ps', ps = D' ++ ps' ∧
      FramesInv es base m flags mem0 st0 P0 (D ++ D') mem' st' ∧ (r = .ok () ↔ ps' = [])
  | [], D, mem, st, h, _, _ => ⟨_, mem, st, rfl, [], [], rfl, by simpa using h, iff_of_true rfl rfl⟩
  | (p, f) :: ps, D, mem, st, h, hkeys, hfree => by
    obtain ⟨hs, T, P, hsplit, hrep, htab⟩ := h.pool
    have hpool : PoolOk base m mem P := hP0.of_split hsplit htab
    have hJ : PoolJ es base m mem st P mem st := ⟨.inr rfl, [], P, rfl, hrep, fun t => by simp⟩
    have hkD : pageKey p.addr ∉ D.map fun d => pageKey d.1.addr := fun hk => by
      rw [List.map_append, List.nodup_append] at hkeys
      exact hkeys.2.2 hk (List.mem_cons_self _ _)
    obtain ⟨hpfree, hpnh⟩ := hfree (p, f) (List.mem_cons_self _ _)
    obtain ⟨r, mem1, st1, hmap, post⟩ := mapPage_spec (pool_allocSpec hmm hh hent hm hpool) h.wf hJ
      (h.noHuge _ hpnh) f hfl
    have hJ1 : PoolJ es base m mem0 st0 P0 mem1 st1 :=
      PoolJ.trans hs hsplit htab (post.inv fun mem s T hw hJ hT _ => poolJ_write_leaf hpool hw hJ hT _)
    rcases r with (e | _) | _
    · -- out of frames: the loop stops at this pair
      refine ⟨.error e, mem1, st1, ?_, [], (p, f) :: ps, rfl, by simpa using h.failed post hfl hJ1, by simp⟩
      simp only [PageMapper.mapFramesLoop, hmap, except_ok_bind]
      rfl
    · exact absurd (post.already.1 rfl) (by rw [h.others _ hkD, hpfree]; simp)
    · -- mapped: on to the next pair
      obtain ⟨r', mem', st', hrun, D', ps', rfl, h', hr⟩ := mapFramesLoop_spec ps (D ++ [(p, f)]) mem1 st1
        (h.mapped post hfl hJ1) (by simpa using hkeys) fun d hd => hfree d (List.mem_cons_of_mem _ hd)
      refine ⟨r', mem', st', ?_, (p, f) :: D', ps', rfl, by simpa using h', hr⟩
      simp only [PageMapper.mapFramesLoop, hmap, except_ok_bind]
      exact hrun

end Loop

/-! ## `map_frames` -/

section MapFrames

variable {es : List MemmapEntry} {base : BitVec 64} {boot : BootInfo} (hmm : boot.memmap = some es)
  (hh : boot.hhdmOffset = some base) (hent : ∀ e ∈ es, e.typ = .Usable → e.base.toNat + e.len.toNat < 2 ^ 64)
include hmm hh hent

/-- The pairs of `map_frames` from the cursor `pos` over the range `r`: the `i`-th page from `pos` with the `i`-th frame
of `r`. -/
def framePairs (pos : Page) (r : FrameRange) (j : Nat) : List (Page × Frame) :=
  (List.range j).map fun i => (pos.offset i, r.start.offset i)

/-- `map_frames(frames, options)` over a range with `start <= end`, from a state that meets `CallPre`, returns. With
`n` the range's count: for `n = 0` it returns the dangling pointer, and when the region does not fit it returns
`VirtAllocError`, both with nothing changed. Otherwise the cursor moved `n` pages on and the first `j` pairs are mapped,
with `j = n` when the call returned the region's start and `j < n` when it returned `PhysAllocError`. -/
theorem mapFrames_spec {k : KernelAddrSpaceInner} {mem : PhysMem} {st : Option GlobalInner} {P : List Frame}
    (hpre : CallPre es base k mem st P) (frames : FrameRange) (options : MapOptions)
    (hle : frames.start.addr.toNat ≤ frames.stop.addr.toNat) :
    ∃ r k' mem' st', k.mapFrames boot frames options mem st = .ok (r, k', mem', st') ∧ k'.mapper = k.mapper ∧
      k'.vmm.full = k.vmm.full ∧
      (frames.count = 0 ∧ r = .ok danglingPtr ∧ k' = k ∧ mem' = mem ∧ st' = st ∨
        0 < frames.count ∧ (∃ e, r = .error (.VirtAllocError e)) ∧ k' = k ∧ mem' = mem ∧ st' = st ∨
        0 < frames.count ∧ k'.vmm.pos = k.vmm.pos.offset frames.count ∧
          k.vmm.pos.addr.toNat + 4096 * frames.count ≤ k.vmm.full.stop.addr.toNat ∧
          ∃ j ≤ frames.count, (r = .ok k.vmm.pos.addr ∧ j = frames.count ∨
            (∃ e, r = .error (.PhysAllocError e)) ∧ j < frames.count) ∧
            FramesInv es base k.mapper options.flags mem st P (framePairs k.vmm.pos frames j) mem' st') := by
  obtain ⟨n, hsteps, hn⟩ := FrameRange.stepsBetween_of_le hle
  unfold KernelAddrSpaceInner.mapFrames
  simp only [hsteps, except_ok_bind]
  by_cases h0 : n = 0
  · refine ⟨_, k, mem, st, by rw [dif_pos h0]; rfl, rfl, rfl, .inl ⟨?_, rfl, rfl, rfl, rfl⟩⟩
    rw [← hn, h0]; rfl
  have hreg := allocateRegion_eq k.vmm ⟨n, h0⟩
  have hN : (⟨n, h0⟩ : NonZeroUsize).get.toNat = frames.count := hn
  have hpos : 0 < frames.count := by
    rw [← hn]; exact Nat.pos_of_ne_zero fun h => h0 (BitVec.eq_of_toNat_eq (by simpa using h))
  by_cases hf : regionFits k.vmm.pos k.vmm.full.stop ⟨n, h0⟩
  · rw [if_pos hf] at hreg
    have hfit := hf.1
    have hpairs : (PageRange.pages ⟨k.vmm.pos, k.vmm.pos.add ⟨n, h0⟩⟩).zip frames.frames =
        framePairs k.vmm.pos frames frames.count := by
      rw [region_pages hf, hN, zip_pages_frames _ _ (by simp only [FrameRange.count, rangeLen]; omega)]; rfl
    have hkeys : ((framePairs k.vmm.pos frames frames.count).map fun d => pageKey d.1.addr).Nodup := by
      simpa only [framePairs, List.map_map, Function.comp_def, hN] using region_keys_nodup hpre.window hf
    obtain ⟨r, mem', st', hrun, D', ps', hsplit, h', hr⟩ := mapFramesLoop_spec hmm hh hent hpre.hhdm hpre.pool
      options.flags_present (framePairs k.vmm.pos frames frames.count) [] mem st (FramesInv.init hpre.wf hpre.rep)
      (by simpa using hkeys) fun d hd => by
        obtain ⟨i, hi, rfl⟩ := List.mem_map.1 hd
        rw [List.mem_range, ← hN] at hi
        exact hpre.free _ (offset_mem_region hf hi).1 (offset_mem_region hf hi).2
    obtain ⟨hj, hD'⟩ := prefix_range_map (fun i => (k.vmm.pos.offset i, frames.start.offset i)) hsplit
    rw [List.nil_append, hD'] at h'
    have hk' : k.vmm.pos.add ⟨n, h0⟩ = k.vmm.pos.offset frames.count := by rw [Page.add_eq_offset hf, hN]
    have hend : k.vmm.pos.addr.toNat + 4096 * frames.count ≤ k.vmm.full.stop.addr.toNat := by
      have := hf.2; rw [hN] at this; omega
    have hl := congrArg List.length hsplit
    simp only [framePairs, List.length_map, List.length_range, List.length_append] at hl
    rw [dif_neg h0, hreg]
    simp only [hpairs, hrun, except_ok_bind]
    cases r with
    | ok u =>
      obtain rfl : ps' = [] := hr.1 rfl
      exact ⟨_, _, mem', st', rfl, rfl, rfl, .inr (.inr ⟨hpos, hk', hend, D'.length, hj,
        .inl ⟨rfl, by simpa using hl.symm⟩, h'⟩)⟩
    | error e =>
      have hne : ps'.length ≠ 0 := fun h0 => by simpa using hr.2 (List.eq_nil_of_length_eq_zero h0)
      exact ⟨_, _, mem', st', rfl, rfl, rfl, .inr (.inr ⟨hpos, hk', hend, D'.length, hj, .inr ⟨⟨e, rfl⟩, by omega⟩,
        h'⟩)⟩
  · rw [if_neg hf] at hreg
    rw [dif_neg h0, hreg]
    exact ⟨_, k, mem, st, rfl, rfl, rfl, .inr (.inl ⟨hpos, ⟨_, rfl⟩, rfl, rfl, rfl⟩)⟩

/-- `map_frames(frames, options)` from a state that meets `CallPre` returns. For `n = 0` pages, or on
`VirtAllocError`, nothing changes; otherwise the cursor moves `n` pages on, the first `j <= n` pages get the level-1
entries `new(flags, start + 4096 * i)`, the call returns `Ok` exactly when `j = n`, and every page whose key is none of
theirs translates as before. -/
theorem mapFrames_correct {k : KernelAddrSpaceInner} {mem : PhysMem} {st : Option GlobalInner} {P : List Frame}
    (hpre : CallPre es base k mem st P) (frames : FrameRange) (options : MapOptions)
    (hle : frames.start.addr.toNat ≤ frames.stop.addr.toNat) :
    ∃ r k' mem' st', k.mapFrames boot frames options mem st = .ok (r, k', mem', st') ∧ k'.mapper = k.mapper ∧
      (frames.count = 0 → r = .ok danglingPtr ∧ k' = k ∧ mem' = mem ∧ st' = st) ∧
      (∀ e, r = .error (.VirtAllocError e) → k' = k ∧ mem' = mem ∧ st' = st) ∧
      (0 < frames.count → (∀ e, r ≠ .error (.VirtAllocError e)) →
        k'.vmm.pos = k.vmm.pos.offset frames.count ∧ ∃ j ≤ frames.count,
          (r = .ok k.vmm.pos.addr ↔ j = frames.count) ∧ (j < frames.count → ∃ e, r = .error (.PhysAllocError e)) ∧
          (∀ i < j, leafEntry mem' k.mapper.l4 (pageKey (k.vmm.pos.offset i).addr) =
            some (PageTableEntry.new options.flags (frames.start.offset i))) ∧
          ∀ q : Page, (∀ i < j, pageKey q.addr ≠ pageKey (k.vmm.pos.offset i).addr) →
            k.mapper.translatePage mem' q = k.mapper.translatePage mem q) := by
  obtain ⟨r, k', mem', st', hrun, hmap, -, hcase⟩ := mapFrames_spec hmm hh hent hpre frames options hle
  refine ⟨r, k', mem', st', hrun, hmap, ?_⟩
  rcases hcase with ⟨h0, rfl, rfl, rfl, rfl⟩ | ⟨hpos, ⟨e, rfl⟩, rfl, rfl, rfl⟩ | ⟨hpos, hk', -, j, hj, hr, h⟩
  · -- no page
    exact ⟨fun _ => ⟨rfl, rfl, rfl, rfl⟩, nofun, fun hpos => absurd h0 (by omega)⟩
  · -- the region does not fit
    exact ⟨fun h0 => absurd h0 (by omega), fun _ _ => ⟨rfl, rfl, rfl⟩, fun _ hv => absurd rfl (hv e)⟩
  · -- the first `j` pairs mapped
    have hnv : ∀ e, r ≠ .error (.VirtAllocError e) := fun e he => by
      rcases hr with ⟨rfl, -⟩ | ⟨⟨e', rfl⟩, -⟩ <;> cases he
    refine ⟨fun h0 => absurd h0 (by omega), fun e he => absurd he (hnv e), fun _ _ => ⟨hk', j, hj, ?_, ?_,
      fun i hi => ?_, fun q hq => ?_⟩⟩
    · rcases hr with ⟨rfl, rfl⟩ | ⟨⟨e, rfl⟩, hlt⟩
      · exact iff_of_true rfl rfl
      · exact iff_of_false (by simp) (by omega)
    · rcases hr with ⟨-, rfl⟩ | ⟨he, -⟩
      · exact fun h => absurd h (lt_irrefl _)
      · exact fun _ => he
    · exact h.leaf (k.vmm.pos.offset i, frames.start.offset i) (List.mem_map.2 ⟨i, List.mem_range.2 hi, rfl⟩)
    · rw [translatePage_eq h.wf, translatePage_eq hpre.wf, h.others _ fun hk => ?_]
      obtain ⟨d, hd, he⟩ := List.mem_map.1 hk
      obtain ⟨i, hi, rfl⟩ := List.mem_map.1 hd
      exact hq i (List.mem_range.1 hi) he.symm

omit hmm hh hent in
/-- `map_frames` of two frames from `0x50000`, writable, from the empty kernel. -/
theorem mapFrames_correct_small :
    ∃ r k' mem' st', emptyKernel.mapFrames smallBoot ⟨⟨0x50000⟩, ⟨0x52000⟩⟩ { writable := true } zeroMem none =
      .ok (r, k', mem', st') ∧ k'.mapper = emptyKernel.mapper ∧
      (FrameRange.count ⟨⟨0x50000⟩, ⟨0x52000⟩⟩ = 0 → r = .ok danglingPtr ∧ k' = emptyKernel ∧ mem' = zeroMem ∧
        st' = none) ∧
      (∀ e, r = .error (.VirtAllocError e) → k' = emptyKernel ∧ mem' = zeroMem ∧ st' = none) ∧
      (0 < FrameRange.count ⟨⟨0x50000⟩, ⟨0x52000⟩⟩ → (∀ e, r ≠ .error (.VirtAllocError e)) →
        k'.vmm.pos = emptyKernel.vmm.pos.offset 2 ∧ ∃ j ≤ FrameRange.count ⟨⟨0x50000⟩, ⟨0x52000⟩⟩,
          (r = .ok emptyKernel.vmm.pos.addr ↔ j = 2) ∧ (j < 2 → ∃ e, r = .error (.PhysAllocError e)) ∧
          (∀ i < j, leafEntry mem' zeroMapper.l4 (pageKey (emptyKernel.vmm.pos.offset i).addr) =
            some (PageTableEntry.new (MapOptions.flags { writable := true }) (Frame.offset ⟨0x50000⟩ i))) ∧
          ∀ q : Page, (∀ i < j, pageKey q.addr ≠ pageKey (emptyKernel.vmm.pos.offset i).addr) →
            zeroMapper.translatePage mem' q = zeroMapper.translatePage zeroMem q) :=
  mapFrames_correct (show smallBoot.memmap = some smallMemmap from rfl) rfl smallMemmap_fits emptyKernel_callPre
    ⟨⟨0x50000⟩, ⟨0x52000⟩⟩ { writable := true } (by decide)

omit hmm hh hent in
/-- `map_frames` of the frame `0x50000` from the empty kernel maps the window's first page `0xffff800000000000`. The
page `0x800000000000`, outside the region, has the same bits 12..47, all that `translate_page` reads: it translated to
nothing and now translates to `0x50000`. -/
theorem mapFrames_alias_changes :
    CallPre smallMemmap 0 emptyKernel zeroMem none (usableFrames smallMemmap) ∧
      zeroMapper.translatePage zeroMem ⟨0x800000000000⟩ = .ok none ∧
      ∃ k' mem' st', emptyKernel.mapFrames smallBoot ⟨⟨0x50000⟩, ⟨0x51000⟩⟩ {} zeroMem none =
        .ok (.ok 0xffff800000000000, k', mem', st') ∧
        zeroMapper.translatePage mem' ⟨0x800000000000⟩ = .ok (some ⟨0x50000⟩) :=
  ⟨emptyKernel_callPre, rfl, _, _, _, rfl, rfl⟩

end MapFrames

end Ithaca
