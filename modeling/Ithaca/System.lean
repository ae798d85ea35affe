import Ithaca.MapFrames
import Ithaca.LeafWrites

/-!
# The address space over runs of calls

`AddrSpace::allocate` and `AddrSpace::map_frames` from boot (`runAddrSpace`): the first call builds `KERNEL` with
`with_limine`, and every call runs on the state the calls before it left. `SysInv`, kept over every run (`sysInv_run`),
says the state meets `CallPre`, so no call panics (`addrSpace_no_panic`), and that the tables, the allocated pages'
frames, the freelist and the memory map left are pairwise disjoint (`addrSpace_invariants`); `Conserved` accounts for
every usable frame (`addrSpace_conserves_frames`). Both need a tree-shaped hierarchy at boot: where two level-2 entries
of the window share a level-1 table, a later `map_frames` panics (`addrSpace_panics_of_shared_table`).
-/

namespace Ithaca

/-! ## Runs from boot -/

/-- The calls the contract covers: `map_frames` of a range with `start <= end`. -/
def AddrSpaceCall.Valid : AddrSpaceCall → Prop
  | .allocate _ => True
  | .mapFrames frames _ => frames.start.addr.toNat ≤ frames.stop.addr.toNat

instance : (c : AddrSpaceCall) → Decidable c.Valid
  | .allocate _ => inferInstanceAs (Decidable True)
  | .mapFrames frames _ => inferInstanceAs (Decidable (frames.start.addr.toNat ≤ frames.stop.addr.toNat))

/-- The pages a call mapped for `allocate`: `n` pages from the pointer it returned. -/
def callPages : AddrSpaceCall → Except AllocError (BitVec 64) → List Page
  | .allocate n, .ok ptr => (List.range n.get.toNat).map (Page.offset ⟨ptr⟩)
  | _, _ => []

/-- The pages the `allocate` calls of a run mapped, in order. -/
def allocatedPages : List AddrSpaceCall → List (Except AllocError (BitVec 64)) → List Page
  | c :: cs, r :: rs => callPages c r ++ allocatedPages cs rs
  | _, _ => []

/-- `KERNEL`, built or not, is used as the address space `with_limine` builds. -/
theorem withKernelAddressSpace_getD {boot : BootInfo} {k0 : KernelAddrSpaceInner}
    (hk0 : KernelAddrSpaceInner.withLimine boot = .ok k0) (o : Option KernelAddrSpaceInner) :
    withKernelAddressSpace boot o = .ok (o.getD k0) := by
  cases o <;> simp [withKernelAddressSpace, hk0]

/-- `with_limine` puts the cursor at the window's start. -/
theorem withLimine_pos {boot : BootInfo} {k0 : KernelAddrSpaceInner}
    (hk0 : KernelAddrSpaceInner.withLimine boot = .ok k0) : k0.vmm.pos = ⟨windowStart⟩ := by
  unfold KernelAddrSpaceInner.withLimine at hk0
  cases hv : boot.kernelVirtualBase with
  | none => simp [hv] at hk0
  | some v =>
    simp only [hv, except_ok_bind] at hk0
    split at hk0
    · cases hh : Hhdm.withLimine boot with
      | error => simp [hh] at hk0
      | ok hd =>
        cases hm : PageMapper.active hd boot.cr3 with
        | error => simp [hh, hm] at hk0
        | ok m => simp [hh, hm] at hk0; subst hk0; rfl
    · cases hk0

/-! ## The invariant -/

/-- What the pages `allocate` mapped, with their frames `A`, keep: each frame is out of the pool `P`, backs its page,
is no table and backs no other page, and each page lies in the window below the cursor `pos`. -/
structure GhostOk (root : Frame) (mem : PhysMem) (P : List Frame) (pos : Page) (A : List (Page × Frame)) : Prop where
  notPool : ∀ a ∈ A, a.2 ∉ P
  mapped : ∀ a ∈ A, translateKey mem root (pageKey a.1.addr) = some a.2
  frames : (A.map Prod.snd).Nodup
  notTable : ∀ a ∈ A, ¬ IsTable mem root a.2
  below : ∀ a ∈ A, windowStart.toNat ≤ a.1.addr.toNat ∧ a.1.addr.toNat < pos.addr.toNat

/-- Where the usable frames are, from boot over `mem0`: each is in the pool `P`, backs a page of `A`, or is one of the
tables `T` added since boot, and in one place only. -/
def Conserved (es : List MemmapEntry) (root : Frame) (mem0 mem : PhysMem) (P : List Frame) (A : List (Page × Frame)) :
    Prop :=
  ∃ T, (P ++ A.map Prod.snd ++ T).Perm (usableFrames es) ∧ ∀ t, IsTable mem root t ↔ IsTable mem0 root t ∨ t ∈ T

/-- What every state reachable from boot over `mem0` keeps, with `k0` the address space `with_limine` builds and `A`
the pages `allocate` mapped: the address space, built or not, has `k0`'s mapper and window and a page-aligned cursor,
and meets `CallPre` over a pool that `GhostOk` keeps apart from `A` and that `Conserved` accounts for. -/
structure SysInv (es : List MemmapEntry) (base : BitVec 64) (k0 : KernelAddrSpaceInner) (mem0 : PhysMem) (s : Machine)
    (A : List (Page × Frame)) : Prop where
  mapper : (s.kernel.getD k0).mapper = k0.mapper
  full : (s.kernel.getD k0).vmm.full = k0.vmm.full
  aligned : (s.kernel.getD k0).vmm.pos.addr.toNat % 4096 = 0
  pool : ∃ P, CallPre es base (s.kernel.getD k0) s.mem s.global P ∧
    GhostOk k0.mapper.l4 s.mem P (s.kernel.getD k0).vmm.pos A ∧ Conserved es k0.mapper.l4 mem0 s.mem P A

section Ghost

variable {root : Frame} {mem mem' : PhysMem} {P P' T : List Frame} {pos pos' : Page} {A D : List (Page × Frame)}

/-- A call that keeps the translations of `A`'s pages, takes its new tables from the pool, leaves a pool drawn from the
old one and does not move the cursor back keeps `GhostOk`. -/
theorem GhostOk.mono (h : GhostOk root mem P pos A) (hP' : ∀ f ∈ P', f ∈ P) (hT : ∀ t ∈ T, t ∈ P)
    (htab : ∀ t, IsTable mem' root t ↔ IsTable mem root t ∨ t ∈ T)
    (htr : ∀ a ∈ A, translateKey mem' root (pageKey a.1.addr) = translateKey mem root (pageKey a.1.addr))
    (hpos : pos.addr.toNat ≤ pos'.addr.toNat) : GhostOk root mem' P' pos' A where
  notPool a ha hp := h.notPool a ha (hP' _ hp)
  mapped a ha := (htr a ha).trans (h.mapped a ha)
  frames := h.frames
  notTable a ha ht := by
    rcases (htab _).1 ht with ht | ht
    exacts [h.notTable a ha ht, h.notPool a ha (hT _ ht)]
  below a ha := ⟨(h.below a ha).1, (h.below a ha).2.trans_le hpos⟩

/-- Two lists of pages with their frames, with no frame in common, together keep `GhostOk`. -/
theorem GhostOk.append (hA : GhostOk root mem P pos A) (hD : GhostOk root mem P pos D)
    (hdis : ∀ a ∈ A, ∀ d ∈ D, a.2 ≠ d.2) : GhostOk root mem P pos (A ++ D) where
  notPool a ha := (List.mem_append.1 ha).elim (hA.notPool a) (hD.notPool a)
  mapped a ha := (List.mem_append.1 ha).elim (hA.mapped a) (hD.mapped a)
  frames := by
    rw [List.map_append, List.nodup_append]
    refine ⟨hA.frames, hD.frames, fun x hx hy => ?_⟩
    obtain ⟨a, ha, rfl⟩ := List.mem_map.1 hx
    obtain ⟨d, hd, he⟩ := List.mem_map.1 hy
    exact hdis a ha d hd he.symm
  notTable a ha := (List.mem_append.1 ha).elim (hA.notTable a) (hD.notTable a)
  below a ha := (List.mem_append.1 ha).elim (hA.below a) (hD.below a)

/-- A page of `A` has a key of no address from a page-aligned cursor on. -/
theorem GhostOk.pageKey_ne (h : GhostOk root mem P pos A) (hal : pos.addr.toNat % 4096 = 0) {a : Page × Frame}
    (ha : a ∈ A) {x : BitVec 64} (hx : pos.addr.toNat ≤ x.toNat) : pageKey a.1.addr ≠ pageKey x :=
  have hb := h.below a ha
  pageKey_ne_of_window hb.1 (by omega) (by omega)

/-- A call that took the frames of the pages `D` and its new tables `T` from the pool keeps `Conserved`, the pages of
`D` joining `A`. -/
theorem Conserved.after {es : List MemmapEntry} {mem0 : PhysMem} (h : Conserved es root mem0 mem P A)
    (hperm : (P' ++ D.map Prod.snd ++ T).Perm P) (htab : ∀ t, IsTable mem' root t ↔ IsTable mem root t ∨ t ∈ T) :
    Conserved es root mem0 mem' P' (A ++ D) := by
  obtain ⟨T0, hT0, htab0⟩ := h
  refine ⟨T0 ++ T, List.Perm.trans ?_ hT0, fun t => by rw [htab, htab0, List.mem_append, or_assoc]⟩
  rw [List.perm_iff_count] at hperm ⊢
  intro x
  have := hperm x
  simp only [List.count_append, List.map_append] at this ⊢
  omega

/-- A call that took only its new tables `T` from the pool keeps `Conserved`. -/
theorem Conserved.after_tables {es : List MemmapEntry} {mem0 : PhysMem} (h : Conserved es root mem0 mem P A)
    (hperm : (P' ++ T).Perm P) (htab : ∀ t, IsTable mem' root t ↔ IsTable mem root t ∨ t ∈ T) :
    Conserved es root mem0 mem' P' A := by
  simpa using h.after (D := []) (by simpa using hperm) htab

end Ghost

namespace SystemAux

/-- The `i`-th page of a region from the cursor has a key of no address from `i` pages further on. -/
theorem offset_pageKey_ne {pos : Page} (hwin : windowStart.toNat ≤ pos.addr.toNat) {i n : Nat}
    (hfit : pos.addr.toNat + 4096 * n < 2 ^ 64) (hi : i < n) {x : BitVec 64} (hx : pos.addr.toNat + 4096 * n ≤ x.toNat) :
    pageKey x ≠ pageKey (pos.offset i).addr := by
  have := pos.offset_toNat (i := i) (by omega)
  exact pageKey_ne_of_window (by omega) (by omega) (by omega)

/-- A key that is none of the first `n` keys from `pos` is no key of a list whose pages are those `n` pages. -/
theorem key_notMem_of_pages {pos : Page} {n : Nat} {D : List (Page × Frame)}
    (hD : D.map Prod.fst = (List.range n).map pos.offset) {x : BitVec 64}
    (hx : ∀ i < n, pageKey x ≠ pageKey (pos.offset i).addr) : pageKey x ∉ D.map fun d => pageKey d.1.addr :=
  fun hk => by
    obtain ⟨d, hd, he⟩ := List.mem_map.1 hk
    obtain ⟨i, hi, hdi⟩ := List.mem_map.1 (hD ▸ List.mem_map_of_mem Prod.fst hd)
    exact hx i (List.mem_range.1 hi) (hdi ▸ he.symm)

end SystemAux

open SystemAux

/-- A pool left by a call that took the tables `T` from a fresh pool, as a permutation, is fresh. -/
theorem PoolOk.of_perm {base : BitVec 64} {m : PageMapper} {mem mem' : PhysMem} {P P' T : List Frame}
    (hP : PoolOk base m mem P) (hperm : (P' ++ T).Perm P) (htab : ∀ t, IsTable mem' m.l4 t ↔ IsTable mem m.l4 t ∨ t ∈ T) :
    PoolOk base m mem' P' :=
  have hnd := hperm.nodup_iff.2 hP.nodup
  have hsub : ∀ f ∈ P', f ∈ P := fun _ hf => hperm.subset (List.mem_append_left _ hf)
  ⟨hnd.sublist (List.sublist_append_left _ _), fun f hf => hP.aligned f (hsub f hf),
    fun f hf => hP.linkable f (hsub f hf), fun f hf ht => ((htab f).1 ht).elim (hP.fresh f (hsub f hf))
      fun hT => List.disjoint_of_nodup_append hnd hf hT, hP.offset⟩

/-- `CallPre` after a call that kept the mapper and the window, did not move the cursor back, left a fresh pool, kept
the translation of every address past the new cursor and kept the walks free of huge pages. -/
theorem CallPre.after {es : List MemmapEntry} {base : BitVec 64} {k k' : KernelAddrSpaceInner} {mem mem' : PhysMem}
    {st st' : Option GlobalInner} {P P' : List Frame} (hpre : CallPre es base k mem st P) (hmap : k'.mapper = k.mapper)
    (hfull : k'.vmm.full = k.vmm.full) (hpos : k.vmm.pos.addr.toNat ≤ k'.vmm.pos.addr.toNat)
    (hw : WellFormed mem' k.mapper) (hrep : PoolRep es base mem' st' P') (hpool : PoolOk base k.mapper mem' P')
    (htr : ∀ x : BitVec 64, k'.vmm.pos.addr.toNat ≤ x.toNat →
      translateKey mem' k.mapper.l4 (pageKey x) = translateKey mem k.mapper.l4 (pageKey x))
    (hnh : ∀ key, NoHugeOnWalk mem k.mapper.l4 key → NoHugeOnWalk mem' k.mapper.l4 key) :
    CallPre es base k' mem' st' P' where
  wf := hmap ▸ hw
  hhdm := hmap ▸ hpre.hhdm
  rep := hrep
  pool := hmap ▸ hpool
  window := hpre.window.trans hpos
  free x h1 h2 := by
    rw [hfull] at h2
    obtain ⟨hnone, hn⟩ := hpre.free x (hpos.trans h1) h2
    rw [hmap, htr x h1]
    exact ⟨hnone, hnh _ hn⟩

/-- After a call that moved the cursor `n` pages on, changed the translation of no key but those of the first `j <= n`
pages from the old cursor, took its new tables `T` from the pool and left a fresh pool drawn from it: the cursor stays
page-aligned, the new state meets `CallPre`, and the pages allocated before keep `GhostOk`. -/
theorem CallPre.after_region {es : List MemmapEntry} {base : BitVec 64} {k0 k k' : KernelAddrSpaceInner}
    {mem mem' : PhysMem} {st st' : Option GlobalInner} {P P' T : List Frame} {A : List (Page × Frame)} {n j : Nat}
    (hpre : CallPre es base k mem st P) (hm : k.mapper = k0.mapper) (hal : k.vmm.pos.addr.toNat % 4096 = 0)
    (hg : GhostOk k0.mapper.l4 mem P k.vmm.pos A) (hmap : k'.mapper = k.mapper) (hfull : k'.vmm.full = k.vmm.full)
    (hpos : k'.vmm.pos = k.vmm.pos.offset n) (hfit : k.vmm.pos.addr.toNat + 4096 * n < 2 ^ 64) (hj : j ≤ n)
    (hw : WellFormed mem' k.mapper) (hrep : PoolRep es base mem' st' P') (hpool : PoolOk base k.mapper mem' P')
    (hsub : ∀ f ∈ P', f ∈ P) (hT : ∀ t ∈ T, t ∈ P)
    (htab : ∀ t, IsTable mem' k.mapper.l4 t ↔ IsTable mem k.mapper.l4 t ∨ t ∈ T)
    (htr : ∀ x : BitVec 64, (∀ i < j, pageKey x ≠ pageKey (k.vmm.pos.offset i).addr) →
      translateKey mem' k.mapper.l4 (pageKey x) = translateKey mem k.mapper.l4 (pageKey x))
    (hnh : ∀ key, NoHugeOnWalk mem k.mapper.l4 key → NoHugeOnWalk mem' k.mapper.l4 key) :
    k'.vmm.pos.addr.toNat % 4096 = 0 ∧ CallPre es base k' mem' st' P' ∧
      GhostOk k0.mapper.l4 mem' P' k'.vmm.pos A := by
  have hpos' : k'.vmm.pos.addr.toNat = k.vmm.pos.addr.toNat + 4096 * n := by rw [hpos, Page.offset_toNat _ hfit]
  rw [← hm] at hg ⊢
  refine ⟨by omega, CallPre.after hpre hmap hfull (by omega) hw hrep hpool
    (fun x hx => htr x fun i hi => offset_pageKey_ne hpre.window hfit (by omega) (by omega)) hnh,
    hg.mono hsub hT htab (fun a ha => htr _ fun i hi => hg.pageKey_ne hal ha ?_) (by omega)⟩
  rw [Page.offset_toNat _ (by omega)]
  omega

/-- `SysInv` of a state whose address space is built, read off the address space. -/
theorem SysInv.of_built {es : List MemmapEntry} {base : BitVec 64} {k0 k : KernelAddrSpaceInner}
    {mem0 mem : PhysMem} {st : Option GlobalInner} {A : List (Page × Frame)} {P : List Frame} (hm : k.mapper = k0.mapper)
    (hf : k.vmm.full = k0.vmm.full) (hal : k.vmm.pos.addr.toNat % 4096 = 0) (hpre : CallPre es base k mem st P)
    (hg : GhostOk k0.mapper.l4 mem P k.vmm.pos A) (hc : Conserved es k0.mapper.l4 mem0 mem P A) :
    SysInv es base k0 mem0 ⟨mem, st, some k⟩ A :=
  ⟨hm, hf, hal, P, hpre, hg, hc⟩

/-! ## One call -/

section Step

variable {boot : BootInfo} {es : List MemmapEntry} {base : BitVec 64} {k0 : KernelAddrSpaceInner} {mem0 : PhysMem}
  (hk0 : KernelAddrSpaceInner.withLimine boot = .ok k0) (hmm : boot.memmap = some es)
  (hh : boot.hhdmOffset = some base) (hent : ∀ e ∈ es, e.typ = .Usable → e.base.toNat + e.len.toNat < 2 ^ 64)
include hk0 hmm hh hent

/-- `allocate(n)` keeps `SysInv`, and the pages it mapped join `A`. -/
theorem sysInv_allocate {s : Machine} {A : List (Page × Frame)} (h : SysInv es base k0 mem0 s A) (n : NonZeroUsize) :
    ∃ r s' A', s.call boot (.allocate n) = .ok (r, s') ∧ SysInv es base k0 mem0 s' A' ∧
      A'.map Prod.fst = A.map Prod.fst ++ callPages (.allocate n) r := by
  obtain ⟨P, hpre, hg, hcons⟩ := h.pool
  obtain ⟨r, k', mem', st', hrun, hmap, hfull, hvirt, hfits⟩ := allocate_spec hmm hh hent hpre n
  have hcall : s.call boot (.allocate n) = .ok (r, ⟨mem', st', some k'⟩) := by
    simp only [Machine.call, withKernelAddressSpace_getD hk0, except_ok_bind, hrun]
    rfl
  have hm : k'.mapper = k0.mapper := hmap.trans h.mapper
  by_cases hf : regionFits (s.kernel.getD k0).vmm.pos (s.kernel.getD k0).vmm.full.stop n
  · obtain ⟨hpos, hok, herr⟩ := hfits hf
    replace hpos := hpos.trans (Page.add_eq_offset hf)
    have hfit : (s.kernel.getD k0).vmm.pos.addr.toNat + 4096 * n.get.toNat < 2 ^ 64 := by have := hf.1; omega
    cases r with
    | ok ptr =>
      obtain ⟨rfl, D, T, P', hD, hinv⟩ := hok _ rfl
      rw [region_pages hf] at hD
      have hpool := hpre.pool
      have hsub : ∀ f ∈ P', f ∈ P := fun f hf => hinv.perm.subset (List.mem_append_right _ hf)
      have hTsub : ∀ t ∈ T, t ∈ P := fun t ht => hinv.perm.subset (by simp [ht])
      have hDsub : ∀ d ∈ D, d.2 ∈ P := fun d hd => hinv.perm.subset (by simp; exact .inl ⟨_, hd⟩)
      obtain ⟨hal', hc, hgA⟩ := hpre.after_region h.mapper h.aligned hg hmap hfull hpos hfit le_rfl hinv.wf hinv.rep
        (hinv.poolOk hpool) hsub hTsub hinv.tables (fun x hx => hinv.others _ (key_notMem_of_pages hD hx)) hinv.noHuge
      -- the frames of the region's pages join the ghost list
      have hgD : GhostOk k0.mapper.l4 mem' P' k'.vmm.pos D := by
        rw [← h.mapper]
        refine ⟨fun d hd => (hinv.frame hpool hd).2.2.2.1, fun d hd => (hinv.frame hpool hd).2.2.2.2,
          (List.nodup_append.1 (List.nodup_append.1 (hinv.nodup hpool)).1).1, fun d hd => (hinv.frame hpool hd).2.2.1,
          fun d hd => ?_⟩
        obtain ⟨i, hi, hdi⟩ := List.mem_map.1 (hD ▸ List.mem_map_of_mem Prod.fst hd)
        rw [← hdi, hpos, Page.offset_toNat _ (by simp at hi; omega), Page.offset_toNat _ hfit]
        exact ⟨by have := hpre.window; omega, by simp at hi; omega⟩
      have hperm : (P' ++ D.map Prod.snd ++ T).Perm P := by
        rw [List.append_assoc]
        exact List.perm_append_comm.trans hinv.perm
      refine ⟨_, _, A ++ D, hcall, SysInv.of_built hm (hfull.trans h.full) hal' hc
        (hgA.append hgD fun a ha d hd he => hg.notPool a ha (he ▸ hDsub d hd))
        (hcons.after hperm (h.mapper ▸ hinv.tables)), ?_⟩
      rw [List.map_append, hD]
      rfl
    | error e =>
      obtain ⟨⟨pe, rfl⟩, hfail, -⟩ := herr _ rfl
      obtain ⟨T, P', hrep', hperm, htab⟩ := hfail.pool
      obtain ⟨hal', hc, hgA⟩ := hpre.after_region h.mapper h.aligned hg hmap hfull hpos hfit (Nat.zero_le _) hfail.wf
        hrep' (hpre.pool.of_perm hperm htab) (fun f hf => hperm.subset (List.mem_append_left _ hf))
        (fun t ht => hperm.subset (List.mem_append_right _ ht)) htab (fun x _ => hfail.translate _) hfail.noHuge
      exact ⟨_, _, A, hcall, SysInv.of_built hm (hfull.trans h.full) hal' hc hgA
        (hcons.after_tables hperm (h.mapper ▸ htab)), by simp [callPages]⟩
  · obtain ⟨rfl, rfl, rfl, rfl⟩ := hvirt hf
    exact ⟨_, _, A, hcall, ⟨h.mapper, h.full, h.aligned, h.pool⟩, by simp [callPages]⟩

/-- `map_frames(frames, options)` of a range with `start <= end` keeps `SysInv`, with the same allocated pages. -/
theorem sysInv_mapFrames {s : Machine} {A : List (Page × Frame)} (h : SysInv es base k0 mem0 s A) (frames : FrameRange)
    (options : MapOptions) (hle : frames.start.addr.toNat ≤ frames.stop.addr.toNat) :
    ∃ r s', s.call boot (.mapFrames frames options) = .ok (r, s') ∧ SysInv es base k0 mem0 s' A := by
  obtain ⟨P, hpre, hg, hcons⟩ := h.pool
  obtain ⟨r, k', mem', st', hrun, hmap, hfull, hcase⟩ := mapFrames_spec hmm hh hent hpre frames options hle
  have hcall : s.call boot (.mapFrames frames options) = .ok (r, ⟨mem', st', some k'⟩) := by
    simp only [Machine.call, withKernelAddressSpace_getD hk0, except_ok_bind, hrun]
    rfl
  refine ⟨r, _, hcall, ?_⟩
  rcases hcase with ⟨-, -, rfl, rfl, rfl⟩ | ⟨-, -, rfl, rfl, rfl⟩ | ⟨-, hk', hend, j, hj, -, hinv⟩
  · exact ⟨h.mapper, h.full, h.aligned, h.pool⟩
  · exact ⟨h.mapper, h.full, h.aligned, h.pool⟩
  · obtain ⟨-, T, P', hsplit, hrep', htab⟩ := hinv.pool
    have hperm : (P' ++ T).Perm P := hsplit ▸ List.perm_append_comm
    have hD : (framePairs (s.kernel.getD k0).vmm.pos frames j).map Prod.fst =
        (List.range j).map (s.kernel.getD k0).vmm.pos.offset := by
      simp only [framePairs, List.map_map]; rfl
    obtain ⟨hal', hc, hgA⟩ := hpre.after_region h.mapper h.aligned hg hmap hfull hk'
      (by have := (s.kernel.getD k0).vmm.full.stop.addr.isLt; omega) hj hinv.wf hrep' (hpre.pool.of_perm hperm htab)
      (fun f hf => hperm.subset (List.mem_append_left _ hf)) (fun t ht => hperm.subset (List.mem_append_right _ ht))
      htab (fun x hx => hinv.others _ (key_notMem_of_pages hD hx)) hinv.noHuge
    exact SysInv.of_built (hmap.trans h.mapper) (hfull.trans h.full) hal' hc hgA
      (hcons.after_tables hperm (h.mapper ▸ htab))

/-- Every valid call keeps `SysInv`; the pages `allocate` mapped join `A`. -/
theorem sysInv_call {s : Machine} {A : List (Page × Frame)} (h : SysInv es base k0 mem0 s A) :
    ∀ c : AddrSpaceCall, c.Valid → ∃ r s' A', s.call boot c = .ok (r, s') ∧ SysInv es base k0 mem0 s' A' ∧
      A'.map Prod.fst = A.map Prod.fst ++ callPages c r
  | .allocate n, _ => sysInv_allocate hk0 hmm hh hent h n
  | .mapFrames frames options, hv => by
    obtain ⟨r, s', hcall, h'⟩ := sysInv_mapFrames hk0 hmm hh hent h frames options hv
    exact ⟨r, s', A, hcall, h', by simp [callPages]⟩

/-- Every run of valid calls returns and keeps `SysInv`, the pages its `allocate` calls mapped joining `A`. -/
theorem sysInv_run : ∀ (calls : List AddrSpaceCall) (s : Machine) (A : List (Page × Frame)),
    (∀ c ∈ calls, c.Valid) → SysInv es base k0 mem0 s A →
    ∃ rs s' A', runAddrSpace boot s calls = .ok (rs, s') ∧ SysInv es base k0 mem0 s' A' ∧
      A'.map Prod.fst = A.map Prod.fst ++ allocatedPages calls rs
  | [], s, A, _, h => ⟨[], s, A, rfl, h, by simp [allocatedPages]⟩
  | c :: cs, s, A, hv, h => by
    obtain ⟨r, s1, A1, hcall, h1, hA1⟩ := sysInv_call hk0 hmm hh hent h c (hv c (List.mem_cons_self _ _))
    obtain ⟨rs, s', A', hrun, h', hA'⟩ := sysInv_run cs s1 A1 (fun c' hc => hv c' (List.mem_cons_of_mem _ hc)) h1
    refine ⟨r :: rs, s', A', ?_, h', by rw [hA', hA1, List.append_assoc]; rfl⟩
    simp only [runAddrSpace, hcall, hrun, except_ok_bind]
    rfl

omit hmm hh hent in
/-- At boot, with `KERNEL` and `GLOBAL` not yet built, `SysInv` holds with no page allocated when the address space
`with_limine` builds meets `CallPre` over the usable frames. -/
theorem sysInv_boot {mem : PhysMem} (hpre : CallPre es base k0 mem none (usableFrames es)) :
    SysInv es base k0 mem ⟨mem, none, none⟩ [] :=
  ⟨rfl, rfl, by rw [Option.getD_none, withLimine_pos hk0]; decide, _, hpre,
    ⟨nofun, nofun, List.nodup_nil, nofun,
      nofun⟩, [], by simp, by simp⟩

end Step

/-! ## From boot -/

/-- `with_limine` at the small boot state builds the empty kernel. -/
theorem smallBoot_withLimine : KernelAddrSpaceInner.withLimine smallBoot = .ok emptyKernel := rfl

/-- Every run of `allocate` and `map_frames` calls (each over a range with `start <= end`) from boot returns: no call
panics. At boot `with_limine` builds `k0`, which meets `CallPre` over the memory map's usable frames: a tree-shaped
hierarchy the direct map reaches, distinct aligned usable frames that are no tables, and an unmapped window. -/
theorem addrSpace_no_panic {boot : BootInfo} {es : List MemmapEntry} {base : BitVec 64} {k0 : KernelAddrSpaceInner}
    {mem : PhysMem} (hk0 : KernelAddrSpaceInner.withLimine boot = .ok k0) (hmm : boot.memmap = some es)
    (hh : boot.hhdmOffset = some base) (hent : ∀ e ∈ es, e.typ = .Usable → e.base.toNat + e.len.toNat < 2 ^ 64)
    (hpre : CallPre es base k0 mem none (usableFrames es)) (calls : List AddrSpaceCall) (hv : ∀ c ∈ calls, c.Valid) :
    ∃ rs s, runAddrSpace boot ⟨mem, none, none⟩ calls = .ok (rs, s) := by
  obtain ⟨rs, s, -, hrun, -⟩ := sysInv_run hk0 hmm hh hent calls _ [] hv (sysInv_boot hk0 hpre)
  exact ⟨rs, s, hrun⟩

/-- Three calls from the small boot state: `allocate(1)` takes its frame and three tables, `map_frames` of two frames
needs no new table, and `allocate(2)` finds no frame and rolls back. -/
theorem addrSpace_no_panic_small :
    ∃ rs s, runAddrSpace smallBoot ⟨zeroMem, none, none⟩
      [.allocate ⟨1, by decide⟩, .mapFrames ⟨⟨0x50000⟩, ⟨0x52000⟩⟩ { writable := true }, .allocate ⟨2, by decide⟩] =
      .ok (rs, s) :=
  addrSpace_no_panic smallBoot_withLimine (show smallBoot.memmap = some smallMemmap from rfl) rfl smallMemmap_fits
    emptyKernel_callPre _ (by decide)

/-- In every state a run of valid calls reaches from boot (as for `addrSpace_no_panic`), with `stack` the frames of the
freelist and `rest` those the memory map has left: the freelist and the memory map left hold distinct frames and no
table; the pages the `allocate` calls mapped translate to distinct frames, none of them a table or free; and every page
from the cursor to the window's end is unmapped. -/
theorem addrSpace_invariants {boot : BootInfo} {es : List MemmapEntry} {base : BitVec 64} {k0 : KernelAddrSpaceInner}
    {mem : PhysMem} (hk0 : KernelAddrSpaceInner.withLimine boot = .ok k0) (hmm : boot.memmap = some es)
    (hh : boot.hhdmOffset = some base) (hent : ∀ e ∈ es, e.typ = .Usable → e.base.toNat + e.len.toNat < 2 ^ 64)
    (hpre : CallPre es base k0 mem none (usableFrames es)) (calls : List AddrSpaceCall) (hv : ∀ c ∈ calls, c.Valid)
    {rs : List (Except AllocError (BitVec 64))} {s : Machine}
    (hrun : runAddrSpace boot ⟨mem, none, none⟩ calls = .ok (rs, s)) :
    ∃ (stack rest : List Frame) (A : List (Page × Frame)), PmmSim es base s.mem s.global ⟨stack, rest, []⟩ ∧
      A.map Prod.fst = allocatedPages calls rs ∧ (stack ++ rest).Nodup ∧ (A.map Prod.snd).Nodup ∧
      (∀ f ∈ stack ++ rest, ¬ IsTable s.mem k0.mapper.l4 f) ∧
      (∀ a ∈ A, k0.mapper.translatePage s.mem a.1 = .ok (some a.2) ∧ a.2 ∉ stack ++ rest ∧
        ¬ IsTable s.mem k0.mapper.l4 a.2) ∧
      ∀ q : Page, (s.kernel.getD k0).vmm.pos.addr.toNat ≤ q.addr.toNat → q.addr.toNat < k0.vmm.full.stop.addr.toNat →
        k0.mapper.translatePage s.mem q = .ok none := by
  obtain ⟨rs', s', A, hrun', h, hA⟩ := sysInv_run hk0 hmm hh hent calls _ [] hv (sysInv_boot hk0 hpre)
  rw [hrun] at hrun'
  cases hrun'
  obtain ⟨P, hpre', hg, -⟩ := h.pool
  obtain ⟨stack, rest, hsim, rfl⟩ := hpre'.rep
  have hw : WellFormed s.mem k0.mapper := h.mapper ▸ hpre'.wf
  refine ⟨stack, rest, A, hsim, by simpa using hA, hpre'.pool.nodup, hg.frames,
    fun f hf => h.mapper ▸ hpre'.pool.fresh f hf, fun a ha => ⟨by rw [translatePage_eq hw, hg.mapped a ha], hg.notPool a ha, hg.notTable a ha⟩,
    fun q h1 h2 => ?_⟩
  rw [translatePage_eq hw, ← h.mapper, (hpre'.free q.addr h1 (h.full ▸ h2)).1]

/-- The state after the three calls of `addrSpace_no_panic_small`. -/
theorem addrSpace_invariants_small :
    ∃ rs s, runAddrSpace smallBoot ⟨zeroMem, none, none⟩
        [.allocate ⟨1, by decide⟩, .mapFrames ⟨⟨0x50000⟩, ⟨0x52000⟩⟩ { writable := true }, .allocate ⟨2, by decide⟩] =
        .ok (rs, s) ∧
      ∃ (stack rest : List Frame) (A : List (Page × Frame)), PmmSim smallMemmap 0 s.mem s.global ⟨stack, rest, []⟩ ∧
        A.map Prod.fst = allocatedPages
          [.allocate ⟨1, by decide⟩, .mapFrames ⟨⟨0x50000⟩, ⟨0x52000⟩⟩ { writable := true }, .allocate ⟨2, by decide⟩]
          rs ∧ (stack ++ rest).Nodup ∧ (A.map Prod.snd).Nodup ∧
        (∀ f ∈ stack ++ rest, ¬ IsTable s.mem zeroMapper.l4 f) ∧
        (∀ a ∈ A, zeroMapper.translatePage s.mem a.1 = .ok (some a.2) ∧ a.2 ∉ stack ++ rest ∧
          ¬ IsTable s.mem zeroMapper.l4 a.2) ∧
        ∀ q : Page, (s.kernel.getD emptyKernel).vmm.pos.addr.toNat ≤ q.addr.toNat →
          q.addr.toNat < emptyKernel.vmm.full.stop.addr.toNat → zeroMapper.translatePage s.mem q = .ok none :=
  ⟨_, _, rfl, addrSpace_invariants smallBoot_withLimine (show smallBoot.memmap = some smallMemmap from rfl) rfl
    smallMemmap_fits emptyKernel_callPre _ (by decide) rfl⟩

/-- In every state a run of valid calls reaches from boot (as for `addrSpace_no_panic`), the pages the `allocate` calls
returned have distinct keys: no page is handed out twice, not even as an alias that `translate_page` reads as the same
page, since each allocated page still translates to its own frame. -/
theorem allocatedPages_keys_nodup {boot : BootInfo} {es : List MemmapEntry} {base : BitVec 64}
    {k0 : KernelAddrSpaceInner} {mem : PhysMem} (hk0 : KernelAddrSpaceInner.withLimine boot = .ok k0)
    (hmm : boot.memmap = some es) (hh : boot.hhdmOffset = some base)
    (hent : ∀ e ∈ es, e.typ = .Usable → e.base.toNat + e.len.toNat < 2 ^ 64)
    (hpre : CallPre es base k0 mem none (usableFrames es)) (calls : List AddrSpaceCall) (hv : ∀ c ∈ calls, c.Valid)
    {rs : List (Except AllocError (BitVec 64))} {s : Machine}
    (hrun : runAddrSpace boot ⟨mem, none, none⟩ calls = .ok (rs, s)) :
    ((allocatedPages calls rs).map fun p => pageKey p.addr).Nodup := by
  obtain ⟨rs', s', A, hrun', h, hA⟩ := sysInv_run hk0 hmm hh hent calls _ [] hv (sysInv_boot hk0 hpre)
  rw [hrun] at hrun'
  cases hrun'
  obtain ⟨P, -, hg, -⟩ := h.pool
  -- each frame of `A` is the translation of its page's key
  have hframes : A.map Prod.snd =
      (A.map fun a => pageKey a.1.addr).map fun key => (translateKey s.mem k0.mapper.l4 key).getD ⟨0⟩ := by
    rw [List.map_map]
    exact List.map_congr_left fun a ha => by simp [hg.mapped a ha]
  rw [List.map_nil, List.nil_append] at hA
  rw [← hA, List.map_map]
  exact List.Nodup.of_map _ (hframes ▸ hg.frames)

/-- The pages of the three calls of `addrSpace_no_panic_small` have distinct keys. -/
theorem allocatedPages_keys_nodup_small :
    ∃ rs s, runAddrSpace smallBoot ⟨zeroMem, none, none⟩
        [.allocate ⟨1, by decide⟩, .mapFrames ⟨⟨0x50000⟩, ⟨0x52000⟩⟩ { writable := true }, .allocate ⟨2, by decide⟩] =
        .ok (rs, s) ∧
      ((allocatedPages
        [.allocate ⟨1, by decide⟩, .mapFrames ⟨⟨0x50000⟩, ⟨0x52000⟩⟩ { writable := true }, .allocate ⟨2, by decide⟩]
        rs).map fun p => pageKey p.addr).Nodup :=
  ⟨_, _, rfl, allocatedPages_keys_nodup smallBoot_withLimine (show smallBoot.memmap = some smallMemmap from rfl) rfl
    smallMemmap_fits emptyKernel_callPre _ (by decide) rfl⟩

/-- In every state a run of valid calls reaches from boot (as for `addrSpace_no_panic`), no usable frame is lost or
counted twice: the freelist, the memory map left, the frames of the pages the `allocate` calls mapped and the tables
added since boot are together a permutation of the usable frames of the memory map. A failed `allocate` gives back
every frame it took but the tables it linked. -/
theorem addrSpace_conserves_frames {boot : BootInfo} {es : List MemmapEntry} {base : BitVec 64}
    {k0 : KernelAddrSpaceInner} {mem : PhysMem} (hk0 : KernelAddrSpaceInner.withLimine boot = .ok k0)
    (hmm : boot.memmap = some es) (hh : boot.hhdmOffset = some base)
    (hent : ∀ e ∈ es, e.typ = .Usable → e.base.toNat + e.len.toNat < 2 ^ 64)
    (hpre : CallPre es base k0 mem none (usableFrames es)) (calls : List AddrSpaceCall) (hv : ∀ c ∈ calls, c.Valid)
    {rs : List (Except AllocError (BitVec 64))} {s : Machine}
    (hrun : runAddrSpace boot ⟨mem, none, none⟩ calls = .ok (rs, s)) :
    ∃ (stack rest : List Frame) (A : List (Page × Frame)) (T : List Frame),
      PmmSim es base s.mem s.global ⟨stack, rest, []⟩ ∧ A.map Prod.fst = allocatedPages calls rs ∧
      (stack ++ rest ++ A.map Prod.snd ++ T).Perm (usableFrames es) ∧
      ∀ t, IsTable s.mem k0.mapper.l4 t ↔ IsTable mem k0.mapper.l4 t ∨ t ∈ T := by
  obtain ⟨rs', s', A, hrun', h, hA⟩ := sysInv_run hk0 hmm hh hent calls _ [] hv (sysInv_boot hk0 hpre)
  rw [hrun] at hrun'
  cases hrun'
  obtain ⟨P, hpre', -, T, hperm, htab⟩ := h.pool
  obtain ⟨stack, rest, hsim, rfl⟩ := hpre'.rep
  exact ⟨stack, rest, A, T, hsim, by simpa using hA, hperm, htab⟩

/-- Where the frames are after the three calls of `addrSpace_no_panic_small`. -/
theorem addrSpace_conserves_frames_small :
    ∃ rs s, runAddrSpace smallBoot ⟨zeroMem, none, none⟩
        [.allocate ⟨1, by decide⟩, .mapFrames ⟨⟨0x50000⟩, ⟨0x52000⟩⟩ { writable := true }, .allocate ⟨2, by decide⟩] =
        .ok (rs, s) ∧
      ∃ (stack rest : List Frame) (A : List (Page × Frame)) (T : List Frame),
        PmmSim smallMemmap 0 s.mem s.global ⟨stack, rest, []⟩ ∧ A.map Prod.fst = allocatedPages
          [.allocate ⟨1, by decide⟩, .mapFrames ⟨⟨0x50000⟩, ⟨0x52000⟩⟩ { writable := true }, .allocate ⟨2, by decide⟩]
          rs ∧
        (stack ++ rest ++ A.map Prod.snd ++ T).Perm (usableFrames smallMemmap) ∧
        ∀ t, IsTable s.mem zeroMapper.l4 t ↔ IsTable zeroMem zeroMapper.l4 t ∨ t ∈ T :=
  ⟨_, _, rfl, addrSpace_conserves_frames smallBoot_withLimine (show smallBoot.memmap = some smallMemmap from rfl) rfl
    smallMemmap_fits emptyKernel_callPre _ (by decide) rfl⟩

/-! ## A level-1 table shared by two entries -/

/-- The present words of `sharedMem`, the tables they lead to, and no huge-page bit. -/
theorem sharedMem_walkStep {t u : Frame} {i : Nat} (hi : i < 512) (h : walkStep sharedMem t i = some u) :
    (t.addr.toNat = 0x1000 → u = ⟨0x2000⟩) ∧ (t.addr.toNat = 0x2000 → u = ⟨0x3000⟩) ∧
      (t.addr.toNat = 0x3000 → u = ⟨0x4000⟩) ∧ t.addr.toNat ≠ 0x4000 := by
  obtain ⟨hp, rfl⟩ := walkStep_eq_some_iff.1 h
  simp only [entryAt, sharedMem, slotAddr] at hp ⊢
  split_ifs at hp ⊢ with h1 h2 h3
  · exact ⟨fun _ => by decide, fun _ => by omega, fun _ => by omega, by omega⟩
  · exact ⟨fun _ => by omega, fun _ => by decide, fun _ => by omega, by omega⟩
  · exact ⟨fun _ => by omega, fun _ => by omega, fun _ => by decide, by omega⟩
  · exact absurd hp (by decide)

/-- No present word of `sharedMem` has the huge-page bit. -/
theorem sharedMem_noHuge (k : Key) : NoHugeOnWalk sharedMem zeroMapper.l4 k := fun _ j u _ _ hp => by
  simp only [sharedMem] at hp ⊢
  split_ifs at hp ⊢ <;> rfl

/-- At boot no page is mapped through `sharedMem`: every walk ends in the empty level-1 table. -/
theorem sharedMem_translateKey (k : Key) : translateKey sharedMem zeroMapper.l4 k = none := by
  rw [Option.eq_none_iff_forall_not_mem]
  intro f hf
  simp only [translateKey, keyPath, tablePath, List.cons_append, List.nil_append, descend, Option.mem_def,
    Option.bind_eq_some] at hf
  obtain ⟨u1, h1, u2, h2, u3, h3, u4, h4, -⟩ := hf
  obtain rfl := (sharedMem_walkStep (Nat.mod_lt _ (by norm_num)) h1).1 rfl
  obtain rfl := (sharedMem_walkStep (Nat.mod_lt _ (by norm_num)) h2).2.1 rfl
  obtain rfl := (sharedMem_walkStep (Nat.mod_lt _ (by norm_num)) h3).2.2.1 rfl
  exact (sharedMem_walkStep (Nat.mod_lt _ (by norm_num)) h4).2.2.2 rfl

/-- The boot state over `sharedMem`: no usable memory, the direct map at offset 0, the kernel at
`0xffffffff80000000`, CR3 at `0x1000`. -/
def sharedBoot : BootInfo := ⟨some [], some 0, some 0xffffffff80000000, 0x1000⟩

/-- From `sharedMem`, whose window is unmapped with no huge page on any walk but which is not tree-shaped, one
`map_frames` of the frame `0x50000` maps the window's first page and, through the shared level-1 entry, the page
`0xffff800000200000`, past the cursor `0xffff800000001000`. -/
theorem mapFrames_maps_past_cursor :
    KernelAddrSpaceInner.withLimine sharedBoot = .ok emptyKernel ∧ ¬ TreeShaped sharedMem zeroMapper.l4 ∧
      (∀ k, translateKey sharedMem zeroMapper.l4 k = none ∧ NoHugeOnWalk sharedMem zeroMapper.l4 k) ∧
      ∃ rs s, runAddrSpace sharedBoot ⟨sharedMem, none, none⟩ [.mapFrames ⟨⟨0x50000⟩, ⟨0x51000⟩⟩ {}] =
          .ok (rs, s) ∧
        (s.kernel.getD emptyKernel).vmm.pos = ⟨0xffff800000001000⟩ ∧
        zeroMapper.translatePage s.mem ⟨0xffff800000200000⟩ = .ok (some ⟨0x50000⟩) :=
  ⟨rfl, sharedMem_not_treeShaped, fun k => ⟨sharedMem_translateKey k, sharedMem_noHuge k⟩, _, _, rfl, rfl, rfl⟩

set_option maxRecDepth 2000 in
/-- From the same boot state, `map_frames` of one frame, then `allocate(511)`, which finds no frame and moves the
cursor to the window's page 512, then `map_frames` of one frame again panics with "page already mapped". -/
theorem addrSpace_panics_of_shared_table :
    KernelAddrSpaceInner.withLimine sharedBoot = .ok emptyKernel ∧ ¬ TreeShaped sharedMem zeroMapper.l4 ∧
      (∀ k, translateKey sharedMem zeroMapper.l4 k = none ∧ NoHugeOnWalk sharedMem zeroMapper.l4 k) ∧
      runAddrSpace sharedBoot ⟨sharedMem, none, none⟩
        [.mapFrames ⟨⟨0x50000⟩, ⟨0x51000⟩⟩ {}, .allocate ⟨511, by decide⟩, .mapFrames ⟨⟨0x60000⟩, ⟨0x61000⟩⟩ {}] =
        .error pageAlreadyMappedPanic :=
  ⟨rfl, sharedMem_not_treeShaped, fun k => ⟨sharedMem_translateKey k, sharedMem_noHuge k⟩, rfl⟩

end Ithaca
