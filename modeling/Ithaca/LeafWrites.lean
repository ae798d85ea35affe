import Ithaca.Refinement

/-!
# The level-1 writes: the translation cache and absent entries

`map_page` ends with `tlb_flush(page)` once it has written the level-1 entry, and `unmap_page` once it has cleared
one. The translation cache is a list of pairs of a page and a frame, which the hardware may fill between calls with
`translate_page`'s translation of a canonical page (`TlbOp.fill`). Over a tree-shaped hierarchy every cached pair stays
a translation of the tables (`tlb_coherent`); where two entries lead to one table, unmapping a page leaves a stale pair
for the other (`tlb_stale_of_shared_table`). `unmap_page` clears an entry to `new(PageFlags::empty(), frame)`, absent
but keeping the frame's bits (`unmapPage_leaves_frame_bits`).
-/

namespace Ithaca

/-! ## Canonical pages -/

/-- A canonical address: bits 47 to 63 all equal. -/
def Canonical (a : BitVec 64) : Prop := a.toNat < 2 ^ 47 ∨ 2 ^ 64 - 2 ^ 47 ≤ a.toNat

instance (a : BitVec 64) : Decidable (Canonical a) := inferInstanceAs (Decidable (_ ∨ _))

/-- Two canonical addresses with one key lie on one page: bits 12 to 47 and the sign they extend name the page. -/
theorem Canonical.page_eq_of_pageKey {a b : BitVec 64} (ha : Canonical a) (hb : Canonical b)
    (h : pageKey a = pageKey b) : a.toNat / 4096 = b.toNat / 4096 := by
  have := a.isLt; have := b.isLt
  simp only [pageKey, Fin.mk.injEq] at h
  unfold Canonical at ha hb
  omega

/-! ## The translation cache -/

/-- The translation cache: pairs of a page and the frame the hardware read for it. -/
abbrev Tlb := List (Page × Frame)

/-- `tlb_flush(addr)`, `invlpg [addr]`: drop the pairs of the page that holds `addr`. -/
def tlbFlush (addr : BitVec 64) (tlb : Tlb) : Tlb := tlb.filter fun e => e.1.addr.toNat / 4096 != addr.toNat / 4096

/-- A step of a run over the mapper: a call of `map_page` or `unmap_page`, or the hardware caching the translation of
a page. -/
inductive TlbOp
  | map (page : Page) (frame : Frame) (flags : PageFlags)
  | unmap (page : Page)
  | fill (page : Page)
deriving DecidableEq, Repr

/-- The steps the contract covers: `map_page` with `PRESENT` in the flags, `unmap_page` of a canonical page. -/
def TlbOp.Valid : TlbOp → Prop
  | .map _ _ flags => flags.bits.getLsbD 0 = true
  | .unmap page => Canonical page.addr
  | .fill _ => True

instance : (op : TlbOp) → Decidable op.Valid
  | .map _ _ flags => inferInstanceAs (Decidable (flags.bits.getLsbD 0 = true))
  | .unmap page => inferInstanceAs (Decidable (Canonical page.addr))
  | .fill _ => inferInstanceAs (Decidable True)

section Run

variable {σ : Type} (m : PageMapper) (A : FrameAllocator σ)

/-- One step over memory, allocator state and cache. A call's `tlb_flush` runs only where it returns `Ok`; a fill adds
what `translate_page` gives for a canonical page. -/
def tlbStep : TlbOp → PhysMem × σ × Tlb → Except Panic (PhysMem × σ × Tlb)
  | .map page frame flags, (mem, s, tlb) => do
    let (r, mem, s) ← m.mapPage A page frame flags mem s
    match r with
    | .ok () => pure (mem, s, tlbFlush page.addr tlb)
    | .error _ => pure (mem, s, tlb)
  | .unmap page, (mem, s, tlb) => do
    let (r, mem) ← m.unmapPage mem page
    match r with
    | .ok _ => pure (mem, s, tlbFlush page.addr tlb)
    | .error _ => pure (mem, s, tlb)
  | .fill page, (mem, s, tlb) => do
    match ← m.translatePage mem page with
    | some f => pure (mem, s, if Canonical page.addr then (page, f) :: tlb else tlb)
    | none => pure (mem, s, tlb)

/-- A run of steps. -/
def tlbRun : List TlbOp → PhysMem × σ × Tlb → Except Panic (PhysMem × σ × Tlb)
  | [], st => .ok st
  | op :: ops, st => do tlbRun ops (← tlbStep m A op st)

end Run

/-! ## Coherence -/

/-- What a run keeps: a well-formed hierarchy with the allocator's invariant, no huge page on any walk, and a cache
of canonical pages whose every pair is what `translate_page` gives. -/
structure TlbInv {σ : Type} (m : PageMapper) (J : PhysMem → σ → Prop) (mem : PhysMem) (s : σ) (tlb : Tlb) :
    Prop where
  wf : WellFormed mem m
  inv : J mem s
  noHuge : ∀ k, NoHugeOnWalk mem m.l4 k
  coherent : ∀ e ∈ tlb, translateKey mem m.l4 (pageKey e.1.addr) = some e.2
  canonical : ∀ e ∈ tlb, Canonical e.1.addr

/-- The allocator's invariant survives every level-1 write. -/
def LeafStable {σ : Type} (m : PageMapper) (J : PhysMem → σ → Prop) : Prop :=
  ∀ mem s T (k : Key) v, WellFormed mem m → J mem s → descend mem m.l4 (tablePath k) = some T →
    J (mem.write (slotAddr T (k.val % 512)) v) s

section Coherence

variable {σ : Type} {m : PageMapper} {A : FrameAllocator σ} {J : PhysMem → σ → Prop}
  (hA : AllocSpec m A J) (hJ : LeafStable m J)

omit hA hJ in
/-- A flush keeps fewer pairs. -/
theorem mem_tlbFlush {addr : BitVec 64} {tlb : Tlb} {e : Page × Frame} (h : e ∈ tlbFlush addr tlb) :
    e ∈ tlb ∧ e.1.addr.toNat / 4096 ≠ addr.toNat / 4096 := by
  simpa [tlbFlush] using h

include hA hJ

/-- `map_page` keeps the invariant: it changes no present entry, so every cached pair is still a translation. -/
theorem tlbInv_map {mem : PhysMem} {s : σ} {tlb : Tlb} (h : TlbInv m J mem s tlb) (page : Page) (frame : Frame)
    {flags : PageFlags} (hfl : flags.bits.getLsbD 0 = true) :
    ∃ st', tlbStep m A (.map page frame flags) (mem, s, tlb) = .ok st' ∧ TlbInv m J st'.1 st'.2.1 st'.2.2 := by
  obtain ⟨r, mem', s', hrun, post⟩ := mapPage_spec hA h.wf h.inv (h.noHuge (pageKey page.addr)) frame hfl
  have hinv : TlbInv m J mem' s' tlb :=
    ⟨post.wf, post.inv fun mem s T hw hJ' hT _ => hJ mem s T _ _ hw hJ' hT, fun k => post.noHuge k (h.noHuge k),
      fun e he => post.keep.translateKey (h.coherent e he), h.canonical⟩
  simp only [tlbStep, hrun, except_ok_bind]
  rcases r with _ | _
  · exact ⟨_, rfl, hinv⟩
  · exact ⟨_, rfl, { hinv with
      coherent := fun e he => hinv.coherent e (mem_tlbFlush he).1
      canonical := fun e he => hinv.canonical e (mem_tlbFlush he).1 }⟩

omit hA in
/-- `unmap_page` of a canonical page keeps the invariant: it changes only the translation of the page's key, and the
flush drops every cached pair of a canonical page with that key. -/
theorem tlbInv_unmap {mem : PhysMem} {s : σ} {tlb : Tlb} (h : TlbInv m J mem s tlb) {page : Page}
    (hc : Canonical page.addr) :
    ∃ st', tlbStep m A (.unmap page) (mem, s, tlb) = .ok st' ∧ TlbInv m J st'.1 st'.2.1 st'.2.2 := by
  cases hk : translateKey mem m.l4 (pageKey page.addr) with
  | none => exact ⟨_, by simp only [tlbStep, unmapPage_of_unmapped h.wf hk, except_ok_bind]; rfl, h⟩
  | some fr =>
    obtain ⟨T, hT, hun⟩ := unmapPage_of_mapped h.wf hk
    refine ⟨_, by simp only [tlbStep, hun, except_ok_bind]; rfl, wellFormed_write_leaf h.wf hT _,
      hJ _ _ _ _ _ h.wf h.inv hT, fun k => noHugeOnWalk_write_leaf h.wf hT _ (h.noHuge k), fun e he => ?_,
      fun e he => h.canonical e (mem_tlbFlush he).1⟩
    obtain ⟨he, hne⟩ := mem_tlbFlush he
    have hkey : pageKey e.1.addr ≠ pageKey page.addr := fun heq =>
      hne (Canonical.page_eq_of_pageKey (h.canonical e he) hc heq)
    rw [translateKey_write_leaf h.wf.tree hT, if_neg hkey]
    exact h.coherent e he

omit hA hJ in
/-- A fill keeps the invariant: it adds what the tables give. -/
theorem tlbInv_fill {mem : PhysMem} {s : σ} {tlb : Tlb} (h : TlbInv m J mem s tlb) (page : Page) :
    ∃ st', tlbStep m A (.fill page) (mem, s, tlb) = .ok st' ∧ TlbInv m J st'.1 st'.2.1 st'.2.2 := by
  cases hk : translateKey mem m.l4 (pageKey page.addr) with
  | none => exact ⟨_, by simp only [tlbStep, translatePage_eq h.wf, hk, except_ok_bind]; rfl, h⟩
  | some f =>
    refine ⟨_, by simp only [tlbStep, translatePage_eq h.wf, hk, except_ok_bind]; rfl, ?_⟩
    by_cases hc : Canonical page.addr
    · simp only [if_pos hc]
      refine { h with coherent := fun e he => ?_, canonical := fun e he => ?_ } <;>
        rcases List.mem_cons.1 he with rfl | he
      exacts [hk, h.coherent e he, hc, h.canonical e he]
    · simpa only [if_neg hc] using h

/-- Every valid step returns and keeps the invariant. -/
theorem tlbInv_step {mem : PhysMem} {s : σ} {tlb : Tlb} (h : TlbInv m J mem s tlb) :
    ∀ op : TlbOp, op.Valid →
      ∃ st', tlbStep m A op (mem, s, tlb) = .ok st' ∧ TlbInv m J st'.1 st'.2.1 st'.2.2
  | .map page frame _, hv => tlbInv_map hA hJ h page frame hv
  | .unmap _, hv => tlbInv_unmap hJ h hv
  | .fill page, _ => tlbInv_fill h page

/-- Every run of valid steps returns and keeps the invariant. -/
theorem tlbInv_run : ∀ (ops : List TlbOp) (mem : PhysMem) (s : σ) (tlb : Tlb), (∀ op ∈ ops, op.Valid) →
    TlbInv m J mem s tlb → ∃ st', tlbRun m A ops (mem, s, tlb) = .ok st' ∧ TlbInv m J st'.1 st'.2.1 st'.2.2
  | [], _, _, _, _, h => ⟨_, rfl, h⟩
  | op :: ops, _, _, _, hv, h => by
    obtain ⟨⟨mem', s', tlb'⟩, hstep, h'⟩ := tlbInv_step hA hJ h op (hv op (List.mem_cons_self _ _))
    obtain ⟨st'', hrun, h''⟩ := tlbInv_run ops mem' s' tlb' (fun op' hop => hv op' (List.mem_cons_of_mem _ hop)) h'
    exact ⟨st'', by rw [tlbRun, hstep, except_ok_bind]; exact hrun, h''⟩

end Coherence

/-- Over every run of `map_page` (with `PRESENT`), `unmap_page` and hardware fills of canonical pages, from a
well-formed hierarchy with no huge page on any walk, an allocator as `AllocSpec` asks under an invariant level-1 writes
keep, and a coherent cache: the run returns, and every cached pair `(p, f)` then has `translate_page(p) = Some(f)`. -/
theorem tlb_coherent {σ : Type} (m : PageMapper) (A : FrameAllocator σ) (J : PhysMem → σ → Prop)
    (hA : AllocSpec m A J) (hJ : LeafStable m J) (ops : List TlbOp) (hv : ∀ op ∈ ops, op.Valid) (mem : PhysMem)
    (s : σ) (tlb : Tlb) (h : TlbInv m J mem s tlb) :
    ∃ mem' s' tlb', tlbRun m A ops (mem, s, tlb) = .ok (mem', s', tlb') ∧
      ∀ e ∈ tlb', m.translatePage mem' e.1 = .ok (some e.2) := by
  obtain ⟨⟨mem', s', tlb'⟩, hrun, h'⟩ := tlbInv_run hA hJ ops mem s tlb hv h
  exact ⟨mem', s', tlb', hrun, fun e he => by rw [translatePage_eq h'.wf, h'.coherent e he]⟩

/-! ## A run over the empty hierarchy -/

/-- Fresh frames survive a level-1 write: it keeps the tables. -/
theorem freshFrames_leafStable (m : PageMapper) : LeafStable m (FreshFrames m) :=
  fun _ _ _ _ v hw ⟨hnd, hfs⟩ hT => ⟨hnd, fun f hf => ⟨(hfs f hf).1, (hfs f hf).2.1,
    fun ht => (hfs f hf).2.2 ((isTable_write_leaf hw.tree hT v).1 ht)⟩⟩

/-- Map the page `0x2000` to `0x7000` over the empty hierarchy with three fresh frames for the tables, let the hardware
cache it, unmap it and try to cache it again. -/
theorem tlb_coherent_empty :
    ∃ mem' s' tlb', tlbRun zeroMapper listAlloc
        [.map ⟨0x2000⟩ ⟨0x7000⟩ .present, .fill ⟨0x2000⟩, .unmap ⟨0x2000⟩, .fill ⟨0x2000⟩]
        (zeroMem, [⟨0x2000⟩, ⟨0x3000⟩, ⟨0x4000⟩], []) = .ok (mem', s', tlb') ∧
      ∀ e ∈ tlb', zeroMapper.translatePage mem' e.1 = .ok (some e.2) :=
  tlb_coherent zeroMapper listAlloc (FreshFrames zeroMapper) (listAlloc_spec zeroMapper)
    (freshFrames_leafStable zeroMapper) _ (by decide) zeroMem _ []
    ⟨(wellFormed_of_root_absent zeroMapper_root_absent (by decide)).1, zeroMem_freshFrames,
      noHugeOnWalk_of_root_absent zeroMapper_root_absent, nofun, nofun⟩

/-- A hierarchy at `0x1000` whose entry 256, the kernel window's, leads through the tables at `0x2000` and `0x3000` to
the level-1 table at `0x4000`, from both entries 0 and 1 of the level-2 table: the window's pages `0` and `512` read
the same level-1 entry. -/
def sharedMem : PhysMem := fun a =>
  if a = 0x1800 then 0x2003 else if a = 0x2000 then 0x3003 else if a = 0x3000 ∨ a = 0x3008 then 0x4003 else 0

/-- `sharedMem` is not tree-shaped: two walks reach its level-1 table. -/
theorem sharedMem_not_treeShaped : ¬ TreeShaped sharedMem zeroMapper.l4 := fun tree => by
  have := tree [256, 0, 0] [256, 0, 1] ⟨0x4000⟩ (by decide) (by decide) (by decide) (by decide) rfl rfl
  simp at this

/-- Over `sharedMem`, which is not tree-shaped, mapping the window's first page also maps the page 2 MiB further,
which the hardware caches; unmapping the first page flushes only that page, and the cached pair of the other is stale.
Every step is valid and the cache starts empty. -/
theorem tlb_stale_of_shared_table :
    ¬ TreeShaped sharedMem zeroMapper.l4 ∧
      (∀ op ∈ [TlbOp.map ⟨0xffff800000000000⟩ ⟨0x7000⟩ .present, .fill ⟨0xffff800000200000⟩,
        .unmap ⟨0xffff800000000000⟩], op.Valid) ∧
      ∃ mem' s' tlb', tlbRun zeroMapper listAlloc [.map ⟨0xffff800000000000⟩ ⟨0x7000⟩ .present,
          .fill ⟨0xffff800000200000⟩, .unmap ⟨0xffff800000000000⟩] (sharedMem, [], []) = .ok (mem', s', tlb') ∧
        (⟨0xffff800000200000⟩, ⟨0x7000⟩) ∈ tlb' ∧ zeroMapper.translatePage mem' ⟨0xffff800000200000⟩ = .ok none :=
  ⟨sharedMem_not_treeShaped, by decide, _, _, _, rfl, by decide, rfl⟩

/-! ## Absent entries -/

/-- `unmap_page` of a mapped page leaves its level-1 entry `new(PageFlags::empty(), frame)`: absent, and not the zero
word unless the frame is `0`. -/
theorem unmapPage_leaves_frame_bits {m : PageMapper} {mem : PhysMem} (hw : WellFormed mem m) {p : Page} {fr : Frame}
    (h : translateKey mem m.l4 (pageKey p.addr) = some fr) :
    ∃ mem', m.unmapPage mem p = .ok (.ok fr, mem') ∧
      leafEntry mem' m.l4 (pageKey p.addr) = some (PageTableEntry.new .empty fr) ∧
      (PageTableEntry.new .empty fr).bits.getLsbD 0 = false ∧
      (PageTableEntry.new .empty fr).bits = fr.addr := by
  obtain ⟨T, hT, hun⟩ := unmapPage_of_mapped hw h
  have hfr : fr.Aligned := by
    rw [translateKey, keyPath, descend_concat, hT, Option.some_bind] at h
    exact (walkStep_eq_some_iff.1 h).2 ▸ PageTableEntry.frame_aligned _
  refine ⟨_, hun, ?_, by simp [PageTableEntry.new, PageFlags.empty, hfr.getLsbD 0 (.inl (by norm_num))], by
    simp [PageTableEntry.new, PageFlags.empty]⟩
  rw [leafEntry, descend_write_leaf hw.tree hT _ (tablePath_valid _) (by simp), if_neg (by simp [keyPath]), hT,
    Option.map_some', entryAt, write_apply, if_pos rfl]

/-- From zeroed memory, where every entry is the zero word, map the page `0` to `0x7000` and unmap it: the level-1
entry of page `0` is `0x7000`, absent but not zero. -/
theorem unmap_after_map_leaves_frame :
    ∃ mem1 s, zeroMapper.mapPage listAlloc ⟨0⟩ ⟨0x7000⟩ .present zeroMem [⟨0x2000⟩, ⟨0x3000⟩, ⟨0x4000⟩] =
        .ok (.ok (), mem1, s) ∧
      ∃ mem2, zeroMapper.unmapPage mem1 ⟨0⟩ = .ok (.ok ⟨0x7000⟩, mem2) ∧
        leafEntry mem2 zeroMapper.l4 (pageKey 0) = some (PageTableEntry.new .empty ⟨0x7000⟩) ∧
        (PageTableEntry.new .empty ⟨0x7000⟩).bits.getLsbD 0 = false ∧
        (PageTableEntry.new .empty ⟨0x7000⟩).bits = 0x7000 := by
  obtain ⟨r, mem1, s, hrun, post⟩ := mapPage_spec (listAlloc_spec zeroMapper)
    (wellFormed_of_root_absent zeroMapper_root_absent (by decide)).1 zeroMem_freshFrames
    (noHugeOnWalk_of_root_absent zeroMapper_root_absent _) ⟨0x7000⟩ (show PageFlags.present.bits.getLsbD 0 = true from rfl)
  obtain ⟨M, S, hM⟩ : ∃ M S, zeroMapper.mapPage listAlloc ⟨0⟩ ⟨0x7000⟩ .present zeroMem
      [⟨0x2000⟩, ⟨0x3000⟩, ⟨0x4000⟩] = .ok (.ok (), M, S) := ⟨_, _, rfl⟩
  rw [hM] at hrun
  cases hrun
  have htr : translateKey mem1 zeroMapper.l4 (pageKey (⟨0⟩ : Page).addr) = some ⟨0x7000⟩ := by
    rw [post.mapped rfl, if_pos rfl, frame_new_of_aligned _ (by decide)]
  exact ⟨mem1, s, hM, unmapPage_leaves_frame_bits post.wf htr⟩

end Ithaca
