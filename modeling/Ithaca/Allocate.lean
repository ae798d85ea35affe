import Ithaca.Pool
import Ithaca.AddrSpace

/-!
# `allocate` and its rollback

`KernelAddrSpaceInner::allocate(n)` maps each page of the region to the pool's first frame through `map_page`, which
may take more frames of the pool for tables; `AllocInv` is the loop's invariant. On success every page of the region
has the level-1 entry `new(PRESENT | WRITABLE, f_i)` and every other key its old translation (`allocate_ok`). On
`PhysAllocError` the frame guard and the region guard put back every frame that backed a page, so every translation
is the old one and the pool before is the pool after and the new tables (`allocate_error`).
-/

namespace Ithaca

/-! ## Pages of a region -/

theorem Page.offset_zero (p : Page) : p.offset 0 = p := by simp [Page.offset]

theorem Page.offset_toNat (p : Page) {i : Nat} (h : p.addr.toNat + 4096 * i < 2 ^ 64) :
    (p.offset i).addr.toNat = p.addr.toNat + 4096 * i := by
  simp only [Page.offset, BitVec.toNat_add, BitVec.toNat_ofNat]
  omega

/-- The pages of `p .. p.offset d` are the first `d` offsets of `p`. -/
theorem pages_offset (p : Page) {d : Nat} (h : p.addr.toNat + 4096 * d < 2 ^ 64) :
    PageRange.pages ⟨p, p.offset d⟩ = (List.range d).map p.offset := by
  have hlen : PageRange.len ⟨p, p.offset d⟩ = d := by
    simp only [PageRange.len, rangeLen, p.offset_toNat h]
    omega
  rw [PageRange.pages, hlen]

/-- `Step::forward(page, 1)` from an offset of `p` is the next offset, when it fits. -/
theorem forward_offset (p : Page) {d : Nat} (h : p.addr.toNat + 4096 * (d + 1) < 2 ^ 64) :
    (p.offset d).forward 1 = .ok (p.offset (d + 1)) := by
  have hd : (p.offset d).addr.toNat + (1 : BitVec 64).toNat * 4096 < 2 ^ 64 := by
    rw [p.offset_toNat (by omega), show (1 : BitVec 64).toNat = 1 from rfl]; omega
  have hx : (p.offset d).addr + 1 * 4096 = (p.offset (d + 1)).addr := by
    apply BitVec.eq_of_toNat_eq
    rw [p.offset_toNat h, BitVec.toNat_add, p.offset_toNat (by omega)]
    simp only [show (1 * 4096 : BitVec 64).toNat = 4096 by decide]
    omega
  simp only [Page.forward, Page.forwardChecked, Step.forwardChecked_eq, if_pos hd, Option.map_some', hx]

/-- The end of a region that fits is its `n`-th offset. -/
theorem Page.add_eq_offset {pos stop : Page} {n : NonZeroUsize} (hf : regionFits pos stop n) :
    pos.add n = pos.offset n.get.toNat := by
  simp only [Page.add, Page.offset, Page.mk.injEq]
  congr 1
  apply BitVec.eq_of_toNat_eq
  have := hf.1
  simp only [BitVec.toNat_mul, BitVec.toNat_ofNat, show (4096 : BitVec 64).toNat = 4096 from rfl]
  omega

/-- The region of `n` pages the bump allocator hands out from `pos` is the first `n` offsets of `pos`. -/
theorem region_pages {pos stop : Page} {n : NonZeroUsize} (hf : regionFits pos stop n) :
    PageRange.pages ⟨pos, pos.add n⟩ = (List.range n.get.toNat).map pos.offset := by
  rw [Page.add_eq_offset hf, pages_offset pos (by have := hf.1; omega)]

/-! ## The rollback -/

section Rollback

variable {es : List MemmapEntry} {base : BitVec 64} {m : PageMapper} (hb : base.toNat % 4096 = 0)
include hb

/-- `DeallocRegion::drop` over pages mapped to distinct frames that are neither tables nor in the pool: each page is
unmapped and its frame freed, so the pool gets the frames in front, last page first, and only the region's keys lose
their translation. -/
theorem deallocRegion_spec : ∀ (D : List (Page × Frame)) (mem : PhysMem) (g : GlobalInner) (P : List Frame),
    WellFormed mem m → PoolRep es base mem (some g) P →
    (∀ f ∈ P, f.addr.toNat % 4096 = 0 ∧ ¬ IsTable mem m.l4 f) →
    (D.map fun d => pageKey d.1.addr).Nodup → (D.map Prod.snd ++ P).Nodup →
    (∀ d ∈ D, translateKey mem m.l4 (pageKey d.1.addr) = some d.2 ∧ Linkable base d.2 ∧ d.2.Aligned ∧
      ¬ IsTable mem m.l4 d.2) →
    ∃ mem' g', m.deallocRegion (D.map Prod.fst) mem (some g) = .ok (mem', some g') ∧ WellFormed mem' m ∧
      PoolRep es base mem' (some g') ((D.map Prod.snd).reverse ++ P) ∧
      (∀ t, IsTable mem' m.l4 t ↔ IsTable mem m.l4 t) ∧
      (∀ k, translateKey mem' m.l4 k =
        if k ∈ D.map (fun d => pageKey d.1.addr) then none else translateKey mem m.l4 k) ∧
      (∀ k, NoHugeOnWalk mem m.l4 k → NoHugeOnWalk mem' m.l4 k)
  | [], mem, g, P, hw, hP, _, _, _, _ =>
    ⟨mem, g, rfl, hw, hP, fun _ => Iff.rfl, fun k => by simp, fun _ h => h⟩
  | (p, f) :: D, mem, g, P, hw, hP, hfresh, hkeys, hnd, hD => by
    obtain ⟨hmap, hlink, hal, hnt⟩ := hD (p, f) (List.mem_cons_self _ _)
    obtain ⟨T, hT, hun⟩ := unmapPage_of_mapped hw hmap
    have hTt : IsTable mem m.l4 T := ⟨_, tablePath_valid _, by simp, hT⟩
    have hidx : (pageKey p.addr).val % 512 < 512 := Nat.mod_lt _ (by norm_num)
    set mem1 := mem.write (slotAddr T ((pageKey p.addr).val % 512)) (PageTableEntry.new .empty f).bits
    have hw1 : WellFormed mem1 m := wellFormed_write_leaf hw hT _
    have htab1 : ∀ t, IsTable mem1 m.l4 t ↔ IsTable mem m.l4 t := fun t => isTable_write_leaf hw.tree hT _
    have htr1 : ∀ k, translateKey mem1 m.l4 k = if k = pageKey p.addr then none else translateKey mem m.l4 k :=
      fun k => by
        rw [translateKey_write_leaf hw.tree hT]
        split
        · rw [PageTableEntry.target, if_neg]
          simp [PageFlags.empty, hal.getLsbD 0 (.inl (by norm_num))]
        · rfl
    have hfP : f ∉ P := fun h => (List.nodup_cons.1 hnd).1 (List.mem_append_right _ h)
    obtain ⟨mem2, g2, hde, hP2, rfl⟩ := PoolRep.deallocate
      (hP.write_slot m.l4_aligned hTt hidx hfresh _) hlink hfP hb hal.1
    have hagree : AgreesOnTables m.l4 mem1 (mem1.write f.addr.toNat g.free) := agreesOnTables_write m.l4_aligned
      hal.1 (fun h => hnt ((htab1 f).1 h)) (show f.InRegion f.addr.toNat from ⟨le_rfl, by omega⟩) _
    have hw2 := hagree.wellFormed hw1
    have hkeys' := (List.nodup_cons.1 hkeys)
    have hnd' := (List.nodup_cons.1 hnd)
    obtain ⟨mem', g', hrun, hw', hP', htab', htr', hnh'⟩ := deallocRegion_spec D _ g2 (f :: P) hw2 hP2
      (fun f' hf' => by
        rcases List.mem_cons.1 hf' with rfl | hf'
        · exact ⟨hal.1, fun h => hnt ((htab1 f').1 (hagree.isTable_iff.1 h))⟩
        · exact ⟨(hfresh f' hf').1, fun h => (hfresh f' hf').2 ((htab1 f').1 (hagree.isTable_iff.1 h))⟩)
      hkeys'.2 (by
        rw [List.nodup_append_comm, List.cons_append, List.nodup_cons, List.mem_append, not_or]
        refine ⟨⟨hfP, fun h => hnd'.1 (List.mem_append_left _ h)⟩, ?_⟩
        rw [List.nodup_append_comm]; exact hnd'.2)
      (fun d hd => by
        obtain ⟨h1, h2, h3, h4⟩ := hD d (List.mem_cons_of_mem _ hd)
        refine ⟨?_, h2, h3, fun h => h4 ((htab1 _).1 (hagree.isTable_iff.1 h))⟩
        have hk1 : pageKey p.addr ∉ D.map (fun d => pageKey d.1.addr) := hkeys'.1
        rw [hagree.translateKey, htr1, if_neg fun (e : pageKey d.1.addr = pageKey p.addr) =>
          hk1 (e ▸ List.mem_map_of_mem (fun d => pageKey d.1.addr) hd)]
        exact h1)
    refine ⟨mem', g', ?_, hw', by simpa using hP', fun t => (htab' t).trans (hagree.isTable_iff.trans (htab1 t)),
      fun k => ?_, fun k h => hnh' k (hagree.noHuge (noHugeOnWalk_write_leaf hw hT _ h))⟩
    · simp only [List.map_cons, PageMapper.deallocRegion, hun, except_ok_bind]
      rw [hde, except_ok_bind]
      exact hrun
    · rw [htr' k, hagree.translateKey, htr1]
      by_cases hk : k = pageKey p.addr
      · subst hk; simp
      · simp only [List.map_cons, List.mem_cons, hk, false_or, if_false]

end Rollback

/-! ## The loop's invariant -/

/-- `allocate`'s flags contain `PRESENT`. -/
theorem allocFlags_present : allocFlags.bits.getLsbD 0 = true := by decide

/-- The invariant of `allocate`'s loop, from the call's memory `mem0` and pool `P0`: the pages mapped so far with
their frames `D`, the tables added `T` and the pool left `P` are a permutation of `P0`, every page of `D` has its
level-1 entry, and every other key its old translation. -/
structure AllocInv (es : List MemmapEntry) (base : BitVec 64) (m : PageMapper) (mem0 : PhysMem) (P0 : List Frame)
    (D : List (Page × Frame)) (T : List Frame) (mem : PhysMem) (st : Option GlobalInner) (P : List Frame) : Prop where
  wf : WellFormed mem m
  rep : PoolRep es base mem st P
  perm : (D.map Prod.snd ++ T ++ P).Perm P0
  tables : ∀ t, IsTable mem m.l4 t ↔ IsTable mem0 m.l4 t ∨ t ∈ T
  leaf : ∀ d ∈ D, leafEntry mem m.l4 (pageKey d.1.addr) = some (PageTableEntry.new allocFlags d.2)
  others : ∀ k, k ∉ D.map (fun d => pageKey d.1.addr) → translateKey mem m.l4 k = translateKey mem0 m.l4 k
  noHuge : ∀ k, NoHugeOnWalk mem0 m.l4 k → NoHugeOnWalk mem m.l4 k
  built : D = [] ∨ st.isSome

/-- What a failed `allocate` leaves, from the call's memory `mem0` and pool `P0`: every translation is the old one, and
the pool left with the tables added (which stay linked) is a permutation of `P0`. -/
structure AllocFailed (es : List MemmapEntry) (base : BitVec 64) (m : PageMapper) (mem0 : PhysMem) (P0 : List Frame)
    (mem : PhysMem) (st : Option GlobalInner) : Prop where
  wf : WellFormed mem m
  pool : ∃ T P, PoolRep es base mem st P ∧ (P ++ T).Perm P0 ∧ ∀ t, IsTable mem m.l4 t ↔ IsTable mem0 m.l4 t ∨ t ∈ T
  translate : ∀ k, translateKey mem m.l4 k = translateKey mem0 m.l4 k
  noHuge : ∀ k, NoHugeOnWalk mem0 m.l4 k → NoHugeOnWalk mem m.l4 k

namespace AllocAux

/-- Moving a frame taken from the pool to the frames of the pages, and the tables of one `map_page`, to the tables. -/
theorem perm_mapped (a T Tn P : List Frame) (f : Frame) :
    (a ++ [f] ++ (T ++ Tn) ++ P).Perm (a ++ T ++ (f :: (Tn ++ P))) := by
  rw [List.perm_iff_count]; intro x; simp only [List.count_append, List.count_cons, List.count_nil]; omega

/-- The frame guard puts the frame back in front of the pool left by `map_page`. -/
theorem perm_guarded (a T Tn P : List Frame) (f : Frame) :
    (a ++ (T ++ Tn) ++ (f :: P)).Perm (a ++ T ++ (f :: (Tn ++ P))) := by
  rw [List.perm_iff_count]; intro x; simp only [List.count_append, List.count_cons]; omega

/-- The rollback puts the frames of the pages in front of the pool. -/
theorem perm_rollback (a T P : List Frame) : (a.reverse ++ P ++ T).Perm (a ++ T ++ P) := by
  rw [List.perm_iff_count]; intro x; simp only [List.count_append, List.count_reverse]; omega

/-- A split of the first `N` values of `g` is the first `j` of them, then the rest. -/
theorem prefix_range_map {α : Type} (g : Nat → α) {N : Nat} {D ps : List α} (h : (List.range N).map g = D ++ ps) :
    D.length ≤ N ∧ D = (List.range D.length).map g := by
  have hl := congrArg List.length h
  simp only [List.length_map, List.length_range, List.length_append] at hl
  refine ⟨by omega, ?_⟩
  have := congrArg (List.take D.length) h
  rwa [List.take_left' rfl, ← List.map_take, List.take_range, min_eq_left (by omega), eq_comm] at this

/-- Where the loop stands in the region: the pages mapped so far are its first offsets, and the page of this round is
the next one. -/
theorem region_split {start p : Page} {n : Nat} {ps : List Page} {D : List (Page × Frame)}
    (hreg : D.map Prod.fst ++ p :: ps = (List.range n).map start.offset) :
    D.length < n ∧ D.map Prod.fst = (List.range D.length).map start.offset ∧ p = start.offset D.length := by
  obtain ⟨-, hD⟩ := prefix_range_map start.offset hreg.symm
  have hlen : D.length < n := by
    have := congrArg List.length hreg
    simp only [List.length_append, List.length_map, List.length_cons, List.length_range] at this
    omega
  refine ⟨hlen, by simpa using hD, ?_⟩
  have := congrArg (fun l => l[D.length]?) hreg
  simpa only [List.getElem?_append_right (by simp : (D.map Prod.fst).length ≤ D.length), List.length_map,
    Nat.sub_self, List.getElem?_cons_zero, List.getElem?_map, List.getElem?_range hlen, Option.map_some',
    Option.some.injEq] using this

/-- The keys of the pages mapped so far are distinct, and the key of this round's page is none of them. -/
theorem region_keys {start p : Page} {n : Nat} {ps : List Page} {D : List (Page × Frame)}
    (hreg : D.map Prod.fst ++ p :: ps = (List.range n).map start.offset)
    (hkeys : ((List.range n).map fun i => pageKey (start.offset i).addr).Nodup) :
    (D.map fun d => pageKey d.1.addr).Nodup ∧ pageKey p.addr ∉ D.map fun d => pageKey d.1.addr := by
  have := congrArg (List.map fun q => pageKey q.addr) hreg
  simp only [List.map_append, List.map_map, List.map_cons, Function.comp_def] at this
  rw [← this, List.nodup_append] at hkeys
  exact ⟨hkeys.1, fun hk => hkeys.2.2 hk (List.mem_cons_self _ _)⟩

end AllocAux

open AllocAux

section Inv

variable {es : List MemmapEntry} {base : BitVec 64} {m : PageMapper} {mem0 : PhysMem} {P0 : List Frame}
  (hP0 : PoolOk base m mem0 P0)
include hP0

variable {D : List (Page × Frame)} {T : List Frame} {mem : PhysMem} {st : Option GlobalInner} {P : List Frame}

theorem AllocInv.nodup (h : AllocInv es base m mem0 P0 D T mem st P) : (D.map Prod.snd ++ T ++ P).Nodup :=
  h.perm.nodup_iff.2 hP0.nodup

/-- The pool left is fresh. -/
theorem AllocInv.poolOk (h : AllocInv es base m mem0 P0 D T mem st P) : PoolOk base m mem P := by
  have hs : List.Sublist P (D.map Prod.snd ++ T ++ P) := List.sublist_append_right _ _
  have hP := (h.perm.subperm.trans (List.Subperm.refl _)).subset
  refine ⟨(h.nodup hP0).sublist hs, fun f hf => hP0.aligned f (hP (hs.subset hf)),
    fun f hf => hP0.linkable f (hP (hs.subset hf)), fun f hf ht => ?_, hP0.offset⟩
  rcases (h.tables f).1 ht with ht | ht
  · exact hP0.fresh f (hP (hs.subset hf)) ht
  · exact List.disjoint_of_nodup_append (h.nodup hP0) (List.mem_append_right _ ht) hf

/-- The frames of the pages mapped so far came from the pool, are neither tables nor left in the pool, and back their
pages. -/
theorem AllocInv.frame (h : AllocInv es base m mem0 P0 D T mem st P) {d : Page × Frame} (hd : d ∈ D) :
    Linkable base d.2 ∧ d.2.Aligned ∧ ¬ IsTable mem m.l4 d.2 ∧ d.2 ∉ P ∧
      translateKey mem m.l4 (pageKey d.1.addr) = some d.2 := by
  have hmem : d.2 ∈ D.map Prod.snd := List.mem_map_of_mem _ hd
  have hP := h.perm.subset (List.mem_append_left _ (List.mem_append_left _ hmem))
  have hnd := h.nodup hP0
  refine ⟨hP0.linkable _ hP, hP0.aligned _ hP, fun ht => ?_, fun hp => ?_, ?_⟩
  · rcases (h.tables _).1 ht with ht | ht
    · exact hP0.fresh _ hP ht
    · exact List.disjoint_of_nodup_append (List.nodup_append.1 hnd).1 hmem ht
  · exact List.disjoint_of_nodup_append hnd (List.mem_append_left _ hmem) hp
  · rw [translateKey_eq_leafEntry, h.leaf d hd, Option.some_bind,
      PageTableEntry.target_new allocFlags_present (hP0.aligned _ hP)]

/-- The rollback of the pages mapped so far leaves what a failed `allocate` leaves. -/
theorem AllocInv.rollback {g : GlobalInner} (h : AllocInv es base m mem0 P0 D T mem (some g) P)
    (hkeys : (D.map fun d => pageKey d.1.addr).Nodup)
    (hfree : ∀ d ∈ D, translateKey mem0 m.l4 (pageKey d.1.addr) = none) :
    ∃ mem' g', m.deallocRegion (D.map Prod.fst) mem (some g) = .ok (mem', some g') ∧
      AllocFailed es base m mem0 P0 mem' (some g') := by
  have hpool := h.poolOk hP0
  obtain ⟨mem', g', hrun, hw', hrep', htab', htr', hnh'⟩ := deallocRegion_spec hP0.offset D mem g P h.wf h.rep
    (fun f hf => ⟨(hpool.aligned f hf).1, hpool.fresh f hf⟩) hkeys
    ((h.nodup hP0).sublist ((List.sublist_append_left _ _).append (List.Sublist.refl P)))
    fun d hd => by
      obtain ⟨hl, ha, hnt, -, htr⟩ := h.frame hP0 hd
      exact ⟨htr, hl, ha, hnt⟩
  refine ⟨mem', g', hrun, hw', ⟨T, _, hrep', (perm_rollback _ T P).trans h.perm, fun t => (htab' t).trans (h.tables t)⟩,
    fun k => ?_, fun k hk => hnh' k (h.noHuge k hk)⟩
  rw [htr' k]
  split
  · rename_i hk
    obtain ⟨d, hd, rfl⟩ := List.mem_map.1 hk
    exact (hfree d hd).symm
  · exact h.others k ‹_›

variable {J : PhysMem → Option GlobalInner → Prop} {f : Frame} {P' P'' Tn : List Frame} {p : Page} {s : Option GlobalInner}
  {mem1 : PhysMem} {st1 : Option GlobalInner}

omit hP0 in
/-- A page mapped by `map_page` joins `D`, and the tables `map_page` took from the pool join `T`. -/
theorem AllocInv.mapped (h : AllocInv es base m mem0 P0 D T mem st (f :: P'))
    (post : MapPagePost m J (pageKey p.addr) f allocFlags mem s (.ok ()) mem1 st1)
    (hrep : PoolRep es base mem1 st1 P'') (hsome : st1.isSome) (hsplit : P' = Tn ++ P'')
    (htab : ∀ t, IsTable mem1 m.l4 t ↔ IsTable mem m.l4 t ∨ t ∈ Tn) :
    AllocInv es base m mem0 P0 (D ++ [(p, f)]) (T ++ Tn) mem1 st1 P'' where
  wf := post.wf
  rep := hrep
  perm := by
    simp only [List.map_append, List.map_cons, List.map_nil]
    exact (perm_mapped _ T Tn P'' f).trans (hsplit ▸ h.perm)
  tables t := by rw [htab, h.tables, List.mem_append, or_assoc]
  leaf d hd := by
    rcases List.mem_append.1 hd with hd | hd
    · exact post.keep.leafEntry (h.leaf d hd) (PageTableEntry.new_present _ allocFlags_present)
    · rw [List.mem_singleton.1 hd]
      exact post.entry rfl
  others k hk' := by
    simp only [List.map_append, List.map_cons, List.map_nil, List.mem_append, List.mem_singleton, not_or] at hk'
    rw [post.mapped rfl k, if_neg hk'.2]
    exact h.others k hk'.1
  noHuge k hk := post.noHuge k (h.noHuge k hk)
  built := .inr hsome

/-- After a `map_page` that ran out of frames, the frame guard frees the page's frame: the pool gets it back in front,
and the tables `map_page` took join `T`. -/
theorem AllocInv.guarded {e : PhysAllocError} {g1 : GlobalInner} (h : AllocInv es base m mem0 P0 D T mem st (f :: P'))
    (post : MapPagePost m J (pageKey p.addr) f allocFlags mem s (.error (.PhysAllocError e)) mem1 (some g1))
    (hrep : PoolRep es base mem1 (some g1) P'') (hsplit : P' = Tn ++ P'')
    (htab : ∀ t, IsTable mem1 m.l4 t ↔ IsTable mem m.l4 t ∨ t ∈ Tn) :
    ∃ mem2 g2, Global.deallocateFrame mem1 (some g1) f = .ok (mem2, some g2) ∧
      AllocInv es base m mem0 P0 D (T ++ Tn) mem2 (some g2) (f :: P'') := by
  have hnd := h.nodup hP0
  rw [hsplit] at hnd
  have hfP0 : f ∈ P0 := h.perm.subset (by simp)
  have hfD : f ∉ D.map Prod.snd ++ T := fun hf => List.disjoint_of_nodup_append hnd hf (List.mem_cons_self _ _)
  have hfr := (List.nodup_cons.1 (List.nodup_append.1 hnd).2.1).1
  obtain ⟨mem2, g2, hde, hrep2, rfl⟩ := PoolRep.deallocate hrep (hP0.linkable f hfP0)
    (fun hf => hfr (List.mem_append_right _ hf)) hP0.offset (hP0.aligned f hfP0).1
  have hnt : ¬ IsTable mem1 m.l4 f := fun ht => by
    rcases (htab f).1 ht with ht | ht
    · rcases (h.tables f).1 ht with ht | ht
      · exact hP0.fresh f hfP0 ht
      · exact hfD (List.mem_append_right _ ht)
    · exact hfr (List.mem_append_left _ ht)
  have hagree : AgreesOnTables m.l4 mem1 (mem1.write f.addr.toNat g1.free) := agreesOnTables_write m.l4_aligned
    (hP0.aligned f hfP0).1 hnt (show f.InRegion f.addr.toNat from ⟨le_rfl, by omega⟩) _
  refine ⟨_, g2, hde, hagree.wellFormed post.wf, hrep2, ?_, fun t => ?_, fun d hd => ?_, fun k hk => ?_,
    fun k hk => hagree.noHuge (post.noHuge k (h.noHuge k hk)), .inr rfl⟩
  · exact (perm_guarded _ T Tn P'' f).trans (hsplit ▸ h.perm)
  · rw [hagree.isTable_iff, htab, h.tables, List.mem_append, or_assoc]
  · rw [hagree.leafEntry]
    exact post.keep.leafEntry (h.leaf d hd) (PageTableEntry.new_present _ allocFlags_present)
  · rw [hagree.translateKey, post.failed e rfl k]
    exact h.others k hk

end Inv


/-! ## The loop -/

section Loop

variable {es : List MemmapEntry} {base : BitVec 64} {m : PageMapper} {mem0 : PhysMem} {P0 : List Frame}
  {boot : BootInfo} (hmm : boot.memmap = some es) (hh : boot.hhdmOffset = some base)
  (hent : ∀ e ∈ es, e.typ = .Usable → e.base.toNat + e.len.toNat < 2 ^ 64)
  (hm : m.hhdm = ⟨base⟩) (hP0 : PoolOk base m mem0 P0)
  {start : Page} {n : Nat} (hfit : start.addr.toNat + 4096 * n < 2 ^ 64)
  (hkeys : ((List.range n).map fun i => pageKey (start.offset i).addr).Nodup)
  (hfree : ∀ i < n, translateKey mem0 m.l4 (pageKey (start.offset i).addr) = none ∧
    NoHugeOnWalk mem0 m.l4 (pageKey (start.offset i).addr))
include hmm hh hent hm hP0 hfit hkeys hfree

/-- `allocate`'s loop over the pages of the region not yet mapped returns; on success every page of the region is
mapped, on `PhysAllocError` the region is undone. Each page takes at most three tables, so the loop runs out of
frames only when the pool before the call held fewer than four frames for each page. -/
theorem allocateLoop_spec : ∀ (ps : List Page) (D : List (Page × Frame)) (T : List Frame) (mem : PhysMem)
    (st : Option GlobalInner) (P : List Frame), AllocInv es base m mem0 P0 D T mem st P →
    T.length ≤ 3 * D.length → D.map Prod.fst ++ ps = (List.range n).map start.offset →
    ∃ r mem' st', KernelAddrSpaceInner.allocateLoop boot m start ps (start.offset D.length) mem st = .ok (r, mem', st') ∧
      (r = .ok () → ∃ D' T' P', D'.map Prod.fst = (List.range n).map start.offset ∧
        AllocInv es base m mem0 P0 D' T' mem' st' P') ∧
      (∀ e, r = .error e → AllocFailed es base m mem0 P0 mem' st' ∧ P0.length < 4 * n)
  | [], D, T, mem, st, P, h, _, hreg =>
    ⟨_, mem, st, rfl, fun _ => ⟨D, T, P, by simpa using hreg, h⟩, nofun⟩
  | p :: ps, D, T, mem, st, P, h, hcount, hreg => by
    obtain ⟨hlen, hD, hp⟩ := region_split hreg
    obtain ⟨hkeysD, hkD⟩ := region_keys hreg hkeys
    have hfreeD : ∀ d ∈ D, translateKey mem0 m.l4 (pageKey d.1.addr) = none := fun d hd => by
      have hmem : d.1 ∈ (List.range D.length).map start.offset := hD ▸ List.mem_map_of_mem _ hd
      obtain ⟨i, hi, hi'⟩ := List.mem_map.1 hmem
      rw [← hi']
      exact (hfree i (by simp at hi; omega)).1
    obtain ⟨hpfree, hpnh⟩ := hfree D.length hlen
    rw [← hp] at hpfree hpnh
    have hpool := h.poolOk hP0
    obtain ⟨g, hal, hrep⟩ := PoolRep.allocate hmm hh hent h.rep hpool
    have hregion : PageRange.pages ⟨start, start.offset D.length⟩ = D.map Prod.fst := by
      rw [pages_offset start (by omega), hD]
    have hP0len : P0.length = D.length + T.length + P.length := by
      have := h.perm.length_eq
      simp only [List.length_append, List.length_map] at this
      omega
    rcases P with _ | ⟨f, P'⟩
    · -- no frame left: only the region is undone
      have h' : AllocInv es base m mem0 P0 D T mem (some g) [] := { h with rep := hrep, built := .inr rfl }
      obtain ⟨mem', g', hrun, hfail⟩ := h'.rollback hP0 hkeysD hfreeD
      refine ⟨.error ⟨⟩, mem', some g', ?_, nofun, fun _ _ => ⟨hfail, by simp at hP0len; omega⟩⟩
      rw [KernelAddrSpaceInner.allocateLoop, hal, except_ok_bind]
      simp only [hregion, hrun, except_ok_bind]
      rfl
    · have hpool' : PoolOk base m mem P' := hpool.sublist (List.sublist_cons_self _ _)
      have hfr : f.Aligned := hpool.aligned f (List.mem_cons_self _ _)
      have hJ : PoolJ es base m mem (some g) P' mem (some g) := ⟨.inl rfl, [], P', rfl, hrep, fun t => by simp⟩
      obtain ⟨r, mem1, st1, hmap, post⟩ := mapPage_spec (pool_allocSpec hmm hh hent hm hpool') h.wf hJ
        (h.noHuge _ hpnh) f allocFlags_present
      obtain ⟨hs1, Tn, P'', hsplit, hrep1, htab1⟩ := post.inv fun mem s T hw hJ hT _ => poolJ_write_leaf hpool' hw hJ hT _
      replace hs1 : st1.isSome := hs1.elim id fun h => h ▸ rfl
      obtain ⟨hTn, hlive⟩ := mapPage_pool_budget hmm hh hent hm hpool' hrep h.wf (h.noHuge _ hpnh) hmap hsplit htab1
      rcases r with (e | _) | _
      · -- `map_page` ran out of frames, so fewer than three were left: the frame guard, then the region
        have hP' : P'.length < 3 := Nat.lt_of_not_le fun h3 => hlive h3 e rfl
        obtain ⟨g1, rfl⟩ := Option.isSome_iff_exists.1 hs1
        obtain ⟨mem2, g2, hde, h2⟩ := h.guarded hP0 post hrep1 hsplit htab1
        obtain ⟨mem', g', hrun, hfail⟩ := h2.rollback hP0 hkeysD hfreeD
        refine ⟨.error e, mem', some g', ?_, nofun,
          fun _ _ => ⟨hfail, by simp only [List.length_cons] at hP0len; omega⟩⟩
        simp only [KernelAddrSpaceInner.allocateLoop, hal, hmap, hde, hregion, hrun, except_ok_bind]
        rfl
      · exact absurd (post.already.1 rfl) (by rw [h.others _ hkD, hpfree]; simp)
      · -- mapped: the region grows by the page
        have h1 := h.mapped post hrep1 hs1 hsplit htab1
        have hreg' : (D ++ [(p, f)]).map Prod.fst ++ ps = (List.range n).map start.offset := by
          rw [← hreg]; simp
        obtain ⟨r', mem', st', hrun, hok, herr⟩ := allocateLoop_spec ps _ _ _ _ _ h1
          (by simp only [List.length_append, List.length_singleton]; omega) hreg'
        have htr : m.translatePage mem1 p = .ok (some f) := by
          rw [translatePage_eq post.wf, post.mapped rfl, if_pos rfl, frame_new_of_aligned _ hfr]
        refine ⟨r', mem', st', ?_, hok, herr⟩
        simp only [KernelAddrSpaceInner.allocateLoop, hal, hmap, except_ok_bind]
        simp only [hp, forward_offset start (show start.addr.toNat + 4096 * (D.length + 1) < 2 ^ 64 by omega),
          except_ok_bind]
        rw [← hp, htr, except_ok_bind, if_pos rfl]
        simpa using hrun

end Loop

/-! ## `allocate` -/

/-- What `allocate` and `map_frames` need of the state: a well-formed hierarchy, a fresh pool that the pmm holds, the
cursor in the kernel window, and every address from the cursor to the window's end unmapped with no huge page on its
walk. -/
structure CallPre (es : List MemmapEntry) (base : BitVec 64) (k : KernelAddrSpaceInner) (mem : PhysMem)
    (st : Option GlobalInner) (P : List Frame) : Prop where
  wf : WellFormed mem k.mapper
  hhdm : k.mapper.hhdm = ⟨base⟩
  rep : PoolRep es base mem st P
  pool : PoolOk base k.mapper mem P
  window : windowStart.toNat ≤ k.vmm.pos.addr.toNat
  free : ∀ a : BitVec 64, k.vmm.pos.addr.toNat ≤ a.toNat → a.toNat < k.vmm.full.stop.addr.toNat →
    translateKey mem k.mapper.l4 (pageKey a) = none ∧ NoHugeOnWalk mem k.mapper.l4 (pageKey a)

/-- In the kernel window, addresses on different pages have different keys: the window spans `2^35` pages, fewer than
the `2^36` keys. -/
theorem pageKey_ne_of_window {a b : BitVec 64} (ha : windowStart.toNat ≤ a.toNat) (hb : windowStart.toNat ≤ b.toNat)
    (hab : a.toNat / 4096 ≠ b.toNat / 4096) : pageKey a ≠ pageKey b := by
  have hws : windowStart.toNat = 2 ^ 64 - 2 ^ 47 := by decide
  have := a.isLt; have := b.isLt
  simp only [pageKey, ne_eq, Fin.mk.injEq]
  omega

/-- The pages of a region in the kernel window have distinct keys. -/
theorem region_keys_nodup {pos stop : Page} {n : NonZeroUsize} (hwin : windowStart.toNat ≤ pos.addr.toNat)
    (hf : regionFits pos stop n) : ((List.range n.get.toNat).map fun i => pageKey (pos.offset i).addr).Nodup := by
  have hfit := hf.1
  refine (List.nodup_range _).map_on fun i hi j hj hij => by_contra fun hne => ?_
  rw [List.mem_range] at hi hj
  have hi' := pos.offset_toNat (i := i) (by omega)
  have hj' := pos.offset_toNat (i := j) (by omega)
  exact pageKey_ne_of_window (by omega) (by omega) (by omega) hij

/-- The addresses of a region that fits lie between the cursor and the window's end. -/
theorem offset_mem_region {pos stop : Page} {n : NonZeroUsize} (hf : regionFits pos stop n) {i : Nat}
    (hi : i < n.get.toNat) :
    pos.addr.toNat ≤ (pos.offset i).addr.toNat ∧ (pos.offset i).addr.toNat < stop.addr.toNat := by
  have := hf.1; have := hf.2
  rw [pos.offset_toNat (by omega)]
  omega

/-- A state whose top table has no present entry, at a nonzero direct-map address, meets `CallPre`, with the cursor in
the window and a pool of distinct page-aligned frames below `2^63` that can be linked, none of them the top table. -/
theorem callPre_of_root_absent {es : List MemmapEntry} {base : BitVec 64} {k : KernelAddrSpaceInner} {mem : PhysMem}
    {st : Option GlobalInner} {P : List Frame} (hroot : ∀ i < 512, walkStep mem k.mapper.l4 i = none)
    (hl4 : k.mapper.l4.addr.toNat + base.toNat ≠ 0) (hm : k.mapper.hhdm = ⟨base⟩) (hrep : PoolRep es base mem st P)
    (hP : P.Nodup ∧ ∀ f ∈ P, f.Aligned ∧ Linkable base f ∧ f ≠ k.mapper.l4) (hb : base.toNat % 4096 = 0)
    (hwin : windowStart.toNat ≤ k.vmm.pos.addr.toNat) : CallPre es base k mem st P where
  wf := (wellFormed_of_root_absent hroot (hm ▸ hl4)).1
  hhdm := hm
  rep := hrep
  pool := ⟨hP.1, fun f hf => (hP.2 f hf).1, fun f hf => (hP.2 f hf).2.1,
    fun f hf ht => (hP.2 f hf).2.2 ((wellFormed_of_root_absent hroot (hm ▸ hl4)).2 f ht), hb⟩
  window := hwin
  free _ _ _ := ⟨descend_of_root_absent hroot (keyPath_valid _) (by simp [keyPath]), noHugeOnWalk_of_root_absent hroot _⟩

/-! ## A small kernel -/

/-- Four usable frames from `0x10000`. -/
def smallMemmap : List MemmapEntry := [⟨0x10000, 0x4000, .Usable⟩]

/-- A boot state: `smallMemmap`, the direct map at offset 0, the kernel at `0xffffffff80000000`, and CR3 naming the
empty top table at `0x1000` of `zeroMapper`. -/
def smallBoot : BootInfo := ⟨some smallMemmap, some 0, some 0xffffffff80000000, 0x1000⟩

/-- The address space `with_limine` builds at `smallBoot`: the whole window free, over `zeroMapper`. -/
def emptyKernel : KernelAddrSpaceInner := ⟨BumpAllocator.new ⟨⟨windowStart⟩, ⟨0xffffffff80000000⟩⟩, zeroMapper⟩

theorem smallMemmap_fits : ∀ e ∈ smallMemmap, e.typ = .Usable → e.base.toNat + e.len.toNat < 2 ^ 64 := by decide

/-- The empty kernel over zeroed memory, before the pmm is built, meets `CallPre` with the four frames as its pool. -/
theorem emptyKernel_callPre : CallPre smallMemmap 0 emptyKernel zeroMem none (usableFrames smallMemmap) :=
  callPre_of_root_absent zeroMapper_root_absent (by decide) rfl ⟨[], _, rfl, rfl⟩ (by decide) (by decide) (by decide)

section Allocate

variable {es : List MemmapEntry} {base : BitVec 64} {boot : BootInfo} (hmm : boot.memmap = some es)
  (hh : boot.hhdmOffset = some base) (hent : ∀ e ∈ es, e.typ = .Usable → e.base.toNat + e.len.toNat < 2 ^ 64)
include hmm hh hent

/-- `allocate(n)` returns. When the region does not fit it fails with `VirtAllocError` and changes nothing; otherwise
the cursor moves past the region, and the loop's outcome is what `allocateLoop_spec` says. -/
theorem allocate_spec {k : KernelAddrSpaceInner} {mem : PhysMem} {st : Option GlobalInner} {P : List Frame}
    (hpre : CallPre es base k mem st P) (n : NonZeroUsize) :
    ∃ r k' mem' st', k.allocate boot n mem st = .ok (r, k', mem', st') ∧ k'.mapper = k.mapper ∧
      k'.vmm.full = k.vmm.full ∧
      (¬ regionFits k.vmm.pos k.vmm.full.stop n →
        r = .error (.VirtAllocError .VirtualAddressSpaceExhausted) ∧ k' = k ∧ mem' = mem ∧ st' = st) ∧
      (regionFits k.vmm.pos k.vmm.full.stop n → k'.vmm.pos = k.vmm.pos.add n ∧
        (∀ ptr, r = .ok ptr → ptr = k.vmm.pos.addr ∧ ∃ D T P', D.map Prod.fst = PageRange.pages ⟨k.vmm.pos, k.vmm.pos.add n⟩ ∧
          AllocInv es base k.mapper mem P D T mem' st' P') ∧
        (∀ e, r = .error e → (∃ pe, e = .PhysAllocError pe) ∧ AllocFailed es base k.mapper mem P mem' st' ∧
          P.length < 4 * n.get.toNat)) := by
  have hreg := allocateRegion_eq k.vmm n
  unfold KernelAddrSpaceInner.allocate
  by_cases hf : regionFits k.vmm.pos k.vmm.full.stop n
  · rw [if_pos hf] at hreg
    rw [hreg]
    have hfit : k.vmm.pos.addr.toNat + 4096 * n.get.toNat < 2 ^ 64 := by have := hf.1; omega
    have h0 : AllocInv es base k.mapper mem P [] [] mem st P :=
      ⟨hpre.wf, hpre.rep, by simp, fun t => by simp, nofun, fun _ _ => rfl, fun _ h => h, .inl rfl⟩
    obtain ⟨r, mem', st', hrun, hok, herr⟩ := allocateLoop_spec hmm hh hent hpre.hhdm hpre.pool hfit
      (region_keys_nodup hpre.window hf)
      (fun i hi => hpre.free _ (offset_mem_region hf hi).1 (offset_mem_region hf hi).2)
      ((List.range n.get.toNat).map k.vmm.pos.offset) [] [] mem st P h0 (by simp) rfl
    rw [List.length_nil, Page.offset_zero, ← region_pages hf] at hrun
    simp only [hrun, except_ok_bind]
    cases r with
    | ok u =>
      refine ⟨_, _, mem', st', rfl, rfl, rfl, fun h => absurd hf h, fun _ => ⟨rfl, fun ptr hptr => ?_, fun _ h => ?_⟩⟩
      · cases hptr
        obtain ⟨D, T, P', hD, hinv⟩ := hok rfl
        exact ⟨rfl, D, T, P', by rw [hD, region_pages hf], hinv⟩
      · cases h
    | error e =>
      refine ⟨_, _, mem', st', rfl, rfl, rfl, fun h => absurd hf h, fun _ => ⟨rfl, nofun,
        fun _ h => ?_⟩⟩
      cases h
      exact ⟨⟨e, rfl⟩, herr e rfl⟩
  · rw [if_neg hf] at hreg
    rw [hreg]
    exact ⟨_, _, mem, st, rfl, rfl, rfl, fun _ => ⟨rfl, rfl, rfl, rfl⟩, fun h => absurd h hf⟩

/-- `allocate(n)` returning `Ok(ptr)` from a state that meets `CallPre`: `ptr` is the cursor's page and the cursor
moved `n` pages on; the `i`-th page from the cursor has the level-1 entry `new(PRESENT | WRITABLE, f_i)` and
translates to `f_i`; the frames `f_i` are distinct and came from the pool, which lost exactly them and the new tables;
and every page whose key is not a key of the region translates as before. -/
theorem allocate_ok {k k' : KernelAddrSpaceInner} {mem mem' : PhysMem} {st st' : Option GlobalInner} {P : List Frame}
    (hpre : CallPre es base k mem st P) {n : NonZeroUsize} {ptr : BitVec 64}
    (hres : k.allocate boot n mem st = .ok (.ok ptr, k', mem', st')) :
    ptr = k.vmm.pos.addr ∧ k'.vmm.pos = k.vmm.pos.add n ∧ k'.mapper = k.mapper ∧
    ∃ (D : List (Page × Frame)) (T P' : List Frame), D.map Prod.fst = (List.range n.get.toNat).map k.vmm.pos.offset ∧
      (∀ d ∈ D, leafEntry mem' k.mapper.l4 (pageKey d.1.addr) = some (PageTableEntry.new allocFlags d.2) ∧
        k.mapper.translatePage mem' d.1 = .ok (some d.2)) ∧
      (D.map Prod.snd).Nodup ∧ (∀ d ∈ D, d.2 ∈ P) ∧ (D.map Prod.snd ++ T ++ P').Perm P ∧
      PoolRep es base mem' st' P' ∧ (∀ t, IsTable mem' k.mapper.l4 t ↔ IsTable mem k.mapper.l4 t ∨ t ∈ T) ∧
      ∀ q : Page, (∀ d ∈ D, pageKey q.addr ≠ pageKey d.1.addr) →
        k.mapper.translatePage mem' q = k.mapper.translatePage mem q := by
  obtain ⟨r, k'', mem'', st'', hrun, hmap, -, hvirt, hfits⟩ := allocate_spec hmm hh hent hpre n
  rw [hres] at hrun
  cases hrun
  by_cases hf : regionFits k.vmm.pos k.vmm.full.stop n
  · obtain ⟨hpos, hok, -⟩ := hfits hf
    obtain ⟨rfl, D, T, P', hD, h⟩ := hok ptr rfl
    have hnd := h.nodup hpre.pool
    refine ⟨rfl, hpos, hmap, D, T, P', by rw [hD, region_pages hf], fun d hd => ⟨h.leaf d hd, ?_⟩,
      (List.nodup_append.1 (List.nodup_append.1 hnd).1).1, fun d hd => h.perm.subset (by simp; exact .inl ⟨_, hd⟩),
      h.perm, h.rep, h.tables, fun q hq => ?_⟩
    · rw [translatePage_eq h.wf, (h.frame hpre.pool hd).2.2.2.2]
    · rw [translatePage_eq h.wf, translatePage_eq hpre.wf, h.others _ fun hk => ?_]
      obtain ⟨d, hd, he⟩ := List.mem_map.1 hk
      exact hq d hd he.symm
  · cases (hvirt hf).1

omit hmm hh hent in
/-- `allocate(1)` from the empty kernel. -/
theorem allocate_ok_small :
    ∃ ptr k' mem' st', emptyKernel.allocate smallBoot ⟨1, by decide⟩ zeroMem none = .ok (.ok ptr, k', mem', st') ∧
      ptr = emptyKernel.vmm.pos.addr ∧ k'.vmm.pos = emptyKernel.vmm.pos.add ⟨1, by decide⟩ ∧
      k'.mapper = emptyKernel.mapper ∧
      ∃ (D : List (Page × Frame)) (T P' : List Frame), D.map Prod.fst = (List.range 1).map emptyKernel.vmm.pos.offset ∧
        (∀ d ∈ D, leafEntry mem' zeroMapper.l4 (pageKey d.1.addr) = some (PageTableEntry.new allocFlags d.2) ∧
          zeroMapper.translatePage mem' d.1 = .ok (some d.2)) ∧
        (D.map Prod.snd).Nodup ∧ (∀ d ∈ D, d.2 ∈ usableFrames smallMemmap) ∧
        (D.map Prod.snd ++ T ++ P').Perm (usableFrames smallMemmap) ∧ PoolRep smallMemmap 0 mem' st' P' ∧
        (∀ t, IsTable mem' zeroMapper.l4 t ↔ IsTable zeroMem zeroMapper.l4 t ∨ t ∈ T) ∧
        ∀ q : Page, (∀ d ∈ D, pageKey q.addr ≠ pageKey d.1.addr) →
          zeroMapper.translatePage mem' q = zeroMapper.translatePage zeroMem q :=
  ⟨_, _, _, _, rfl, allocate_ok (show smallBoot.memmap = some smallMemmap from rfl) rfl smallMemmap_fits emptyKernel_callPre rfl⟩

omit hmm hh hent in
/-- `allocate(1)` from the empty kernel maps the window's first page `0xffff800000000000` to the frame `0x10000`. The
page `0x800000000000`, outside the region, is the same page once the non-canonical upper bits are dropped, which is
all `translate_page` reads: it translated to nothing and now translates to `0x10000`. -/
theorem allocate_alias_changes :
    CallPre smallMemmap 0 emptyKernel zeroMem none (usableFrames smallMemmap) ∧
      zeroMapper.translatePage zeroMem ⟨0x800000000000⟩ = .ok none ∧
      ∃ k' mem' st', emptyKernel.allocate smallBoot ⟨1, by decide⟩ zeroMem none =
        .ok (.ok 0xffff800000000000, k', mem', st') ∧
        zeroMapper.translatePage mem' ⟨0x800000000000⟩ = .ok (some ⟨0x10000⟩) :=
  ⟨emptyKernel_callPre, rfl, _, _, _, rfl, rfl⟩

/-- `allocate(n)` returning `Err` from a state that meets `CallPre`: every page translates as before. After
`VirtAllocError` nothing changed; after `PhysAllocError` the cursor moved `n` pages on, and the pool left together with
the tables the call linked (which stay) is a permutation of the pool before, so every frame that backed a page of the
region, the one of the page that failed included, is back in the pool. -/
theorem allocate_error {k k' : KernelAddrSpaceInner} {mem mem' : PhysMem} {st st' : Option GlobalInner}
    {P : List Frame} (hpre : CallPre es base k mem st P) {n : NonZeroUsize} {e : AllocError}
    (hres : k.allocate boot n mem st = .ok (.error e, k', mem', st')) :
    (∀ q : Page, k.mapper.translatePage mem' q = k.mapper.translatePage mem q) ∧
    (∀ ve, e = .VirtAllocError ve → k' = k ∧ mem' = mem ∧ st' = st) ∧
    (∀ pe, e = .PhysAllocError pe → k'.vmm.pos = k.vmm.pos.add n ∧ k'.mapper = k.mapper ∧
      ∃ T P' : List Frame, PoolRep es base mem' st' P' ∧ (P' ++ T).Perm P ∧
        ∀ t, IsTable mem' k.mapper.l4 t ↔ IsTable mem k.mapper.l4 t ∨ t ∈ T) := by
  obtain ⟨r, k'', mem'', st'', hrun, hmap, -, hvirt, hfits⟩ := allocate_spec hmm hh hent hpre n
  rw [hres] at hrun
  cases hrun
  by_cases hf : regionFits k.vmm.pos k.vmm.full.stop n
  · obtain ⟨hpos, -, herr⟩ := hfits hf
    obtain ⟨⟨pe, rfl⟩, hfail, -⟩ := herr e rfl
    refine ⟨fun q => ?_, nofun, fun _ _ => ⟨hpos, hmap, hfail.pool⟩⟩
    rw [translatePage_eq hfail.wf, translatePage_eq hpre.wf, hfail.translate]
  · obtain ⟨he, rfl, rfl, rfl⟩ := hvirt hf
    cases he
    exact ⟨fun _ => rfl, fun _ _ => ⟨rfl, rfl, rfl⟩, nofun⟩

omit hmm hh hent in
/-- `allocate(2)` from the empty kernel: the first page takes the four frames (its own and three tables), so the second
finds none and the first is undone. -/
theorem allocate_error_small :
    ∃ e k' mem' st', emptyKernel.allocate smallBoot ⟨2, by decide⟩ zeroMem none = .ok (.error e, k', mem', st') ∧
      (∀ q : Page, zeroMapper.translatePage mem' q = zeroMapper.translatePage zeroMem q) ∧
      (∀ ve, e = .VirtAllocError ve → k' = emptyKernel ∧ mem' = zeroMem ∧ st' = none) ∧
      (∀ pe, e = .PhysAllocError pe → k'.vmm.pos = emptyKernel.vmm.pos.add ⟨2, by decide⟩ ∧
        k'.mapper = emptyKernel.mapper ∧ ∃ T P' : List Frame, PoolRep smallMemmap 0 mem' st' P' ∧
          (P' ++ T).Perm (usableFrames smallMemmap) ∧
          ∀ t, IsTable mem' zeroMapper.l4 t ↔ IsTable zeroMem zeroMapper.l4 t ∨ t ∈ T) :=
  ⟨_, _, _, _, rfl, allocate_error (show smallBoot.memmap = some smallMemmap from rfl) rfl smallMemmap_fits emptyKernel_callPre rfl⟩

omit hmm hh hent in
/-- With the direct map at offset 0 and frame 0 the only usable frame, `allocate(1)` takes frame 0 for its page and
then finds no frame for a table. The frame guard frees frame 0, pushing the pointer 0, which the freelist reads as
empty: after the call no frame can be allocated, where frame 0 could before it. -/
theorem allocate_error_loses_frame_zero :
    (∃ g, Global.allocateFrame nullBoot zeroMem none = .ok (.ok ⟨0⟩, g)) ∧
      ∃ k' mem' st', emptyKernel.allocate nullBoot ⟨1, by decide⟩ zeroMem none =
        .ok (.error (.PhysAllocError ⟨⟩), k', mem', st') ∧
        ∃ g', Global.allocateFrame nullBoot mem' st' = .ok (.error ⟨⟩, g') :=
  ⟨⟨_, rfl⟩, _, _, _, rfl, _, rfl⟩

/-- `allocate(n)` from a state that meets `CallPre` returns `Ok` with the cursor's page whenever the region fits in the
window and the pool holds four frames for each page: one to back it and at most three for new tables. -/
theorem allocate_succeeds {k : KernelAddrSpaceInner} {mem : PhysMem} {st : Option GlobalInner} {P : List Frame}
    (hpre : CallPre es base k mem st P) (n : NonZeroUsize) (hf : regionFits k.vmm.pos k.vmm.full.stop n)
    (hP : 4 * n.get.toNat ≤ P.length) :
    ∃ k' mem' st', k.allocate boot n mem st = .ok (.ok k.vmm.pos.addr, k', mem', st') := by
  obtain ⟨r, k', mem', st', hrun, -, -, -, hfits⟩ := allocate_spec hmm hh hent hpre n
  obtain ⟨-, hok, herr⟩ := hfits hf
  cases r with
  | ok ptr => exact ⟨k', mem', st', by rw [hrun, (hok ptr rfl).1]⟩
  | error e => exact absurd (herr e rfl).2.2 (by omega)

omit hmm hh hent in
/-- With the four frames of the small memory map, `allocate(1)` from the empty kernel takes one frame for the page and
three for the tables, and returns the window's first page. -/
theorem allocate_succeeds_small :
    ∃ k' mem' st', emptyKernel.allocate smallBoot ⟨1, by decide⟩ zeroMem none =
      .ok (.ok emptyKernel.vmm.pos.addr, k', mem', st') :=
  allocate_succeeds (show smallBoot.memmap = some smallMemmap from rfl) rfl smallMemmap_fits emptyKernel_callPre _
    (by decide) (by decide)

end Allocate

end Ithaca
