import Ithaca.PmmRefinement
import Ithaca.Refinement

/-!
# The frame pool under the mapper

Seen from the address space the pmm is a pool: the frames of its freelist, then those the memory map has left
(`PoolRep`). An allocation takes its first frame, a free puts the frame in front, and a write that misses the first
words of its frames keeps it. Over a fresh pool (`PoolOk`) the pmm is an allocator `map_page` can use, and the frames
gone from the pool during a call are exactly the tables it added (`pool_allocSpec`).
-/
namespace Ithaca

/-! ## The pool the pmm holds -/

/-- The pmm's state and memory hold the pool `P`: the freelist's frames, then those the memory map has left. -/
def PoolRep (es : List MemmapEntry) (base : BitVec 64) (mem : PhysMem) (st : Option GlobalInner) (P : List Frame) :
    Prop :=
  ∃ stack rest, PmmSim es base mem st ⟨stack, rest, []⟩ ∧ stack ++ rest = P

/-- The frames of a pool the address space can draw from: distinct, page-aligned below `2^63`, linkable through the
direct map, and not tables; and the direct map's offset is page-aligned, so that each node is aligned as `Node` is. -/
structure PoolOk (base : BitVec 64) (m : PageMapper) (mem : PhysMem) (P : List Frame) : Prop where
  nodup : P.Nodup
  aligned : ∀ f ∈ P, f.Aligned
  linkable : ∀ f ∈ P, Linkable base f
  fresh : ∀ f ∈ P, ¬ IsTable mem m.l4 f
  offset : base.toNat % 4096 = 0

namespace PoolAux

/-- Once `GLOBAL` is built, the frames handed out are not part of its representation. -/
theorem pmmSim_some_held {es : List MemmapEntry} {base : BitVec 64} {mem : PhysMem} {g : GlobalInner} {r : RefPmm}
    (h : PmmSim es base mem (some g) r) (held : List Frame) : PmmSim es base mem (some g) { r with held := held } :=
  ⟨h.hhdm, h.free, h.rest, h.memmap⟩

/-- The first word of a page-aligned frame that is not the table `U` is not an entry of `U`. -/
theorem slotAddr_ne_addr {U f : Frame} {i : Nat} (hU : U.addr.toNat % 4096 = 0) (hf : f.addr.toNat % 4096 = 0)
    (hi : i < 512) (hne : U ≠ f) : slotAddr U i ≠ f.addr.toNat := fun h =>
  hne (slotAddr_inj hU hf hi (show 0 < 512 by norm_num) (h.trans (show f.addr.toNat = slotAddr f 0 by simp [slotAddr]))).1

end PoolAux

open PoolAux

theorem PoolOk.sublist {base : BitVec 64} {m : PageMapper} {mem : PhysMem} {P Q : List Frame} (h : PoolOk base m mem P)
    (hs : List.Sublist Q P) : PoolOk base m mem Q :=
  ⟨h.nodup.sublist hs, fun f hf => h.aligned f (hs.subset hf), fun f hf => h.linkable f (hs.subset hf),
    fun f hf => h.fresh f (hs.subset hf), h.offset⟩

/-- A write that misses the first word of every frame of the pool keeps it. -/
theorem PoolRep.congr {es : List MemmapEntry} {base : BitVec 64} {mem mem' : PhysMem} {st : Option GlobalInner}
    {P : List Frame} (h : ∀ f ∈ P, mem' f.addr.toNat = mem f.addr.toNat) (hP : PoolRep es base mem st P) :
    PoolRep es base mem' st P := by
  obtain ⟨stack, rest, hsim, rfl⟩ := hP
  refine ⟨stack, rest, ?_, rfl⟩
  cases st with
  | none => exact hsim
  | some g =>
    exact ⟨hsim.hhdm, FreelistRep.congr (fun f hf => h f (List.mem_append_left _ hf)) hsim.free, hsim.rest,
      hsim.memmap⟩

/-- A write to an entry of a table keeps a pool that holds no table. -/
theorem PoolRep.write_slot {es : List MemmapEntry} {base : BitVec 64} {mem : PhysMem} {st : Option GlobalInner}
    {P : List Frame} {root U : Frame} {i : Nat} (hroot : root.addr.toNat % 4096 = 0) (hP : PoolRep es base mem st P)
    (hU : IsTable mem root U) (hi : i < 512) (hfresh : ∀ f ∈ P, f.addr.toNat % 4096 = 0 ∧ ¬ IsTable mem root f)
    (v : BitVec 64) : PoolRep es base (mem.write (slotAddr U i) v) st P :=
  hP.congr fun f hf => by
    rw [write_apply, if_neg (Ne.symm (slotAddr_ne_addr (hU.aligned hroot) (hfresh f hf).1 hi
      fun e => (hfresh f hf).2 (e ▸ hU)))]

section Calls

variable {boot : BootInfo} {es : List MemmapEntry} {base : BitVec 64}
  (hmm : boot.memmap = some es) (hh : boot.hhdmOffset = some base)
  (hent : ∀ e ∈ es, e.typ = .Usable → e.base.toNat + e.len.toNat < 2 ^ 64)
include hmm hh hent

/-- `allocate_frame` takes the pool's first frame, or fails on an empty pool; either way `GLOBAL` is built. -/
theorem PoolRep.allocate {mem : PhysMem} {st : Option GlobalInner} {P : List Frame} (hP : PoolRep es base mem st P)
    {m : PageMapper} {memT : PhysMem} (hok : PoolOk base m memT P) :
    ∃ g, Global.allocateFrame boot mem st = .ok (match P with | [] => .error ⟨⟩ | f :: _ => .ok f, some g) ∧
      PoolRep es base mem (some g) P.tail := by
  obtain ⟨stack, rest, hsim, rfl⟩ := hP
  have hinv : RefInv base ⟨stack, rest, []⟩ :=
    ⟨hok.nodup.sublist (List.sublist_append_left _ _), nofun, fun f hf => hok.linkable f (by
      rcases hf with hf | hf | hf
      · exact List.mem_append_left _ hf
      · exact List.mem_append_right _ hf
      · cases hf), fun f hf => (hok.aligned f (List.mem_append_left _ hf)).1⟩
  obtain ⟨g, hal, hsim'⟩ := allocateFrame_sim hmm hh hent hok.offset hsim hinv
  refine ⟨g, ?_, ?_⟩
  · rw [hal]
    rcases stack with _ | ⟨f, s⟩
    · rcases rest with _ | ⟨f, l⟩ <;> rfl
    · rfl
  · rcases stack with _ | ⟨f, s⟩
    · rcases rest with _ | ⟨f, l⟩
      · exact ⟨[], [], hsim', rfl⟩
      · exact ⟨[], l, pmmSim_some_held hsim' [], rfl⟩
    · exact ⟨s, rest, pmmSim_some_held hsim' [], rfl⟩

omit hmm hh hent in
/-- `deallocate_frame` of a linkable page-aligned frame not in the pool, at a page-aligned offset, puts it in front; it
writes the frame's first word only. -/
theorem PoolRep.deallocate {mem : PhysMem} {g : GlobalInner} {P : List Frame} {f : Frame}
    (hP : PoolRep es base mem (some g) P) (hf : Linkable base f) (hfP : f ∉ P) (hb : base.toNat % 4096 = 0)
    (hfa : f.addr.toNat % 4096 = 0) :
    ∃ mem' g', Global.deallocateFrame mem (some g) f = .ok (mem', some g') ∧ PoolRep es base mem' (some g') (f :: P) ∧
      mem' = mem.write f.addr.toNat g.free := by
  obtain ⟨stack, rest, hsim, rfl⟩ := hP
  obtain ⟨hpush, hrep'⟩ := freelistPush_spec hsim.hhdm hsim.free hf (fun hs => hfP (List.mem_append_left _ hs)) hb hfa
  exact ⟨_, { g with free := f.addr + base }, by rw [Global.deallocateFrame, hpush]; rfl,
    ⟨f :: stack, rest, ⟨hsim.hhdm, hrep', hsim.rest, hsim.memmap⟩, rfl⟩, rfl⟩

end Calls

/-! ## The pool as `map_page`'s allocator -/

/-- The pmm during one `map_page` from memory `mem0`, state `st0` and pool `P0`: the frames `T` gone from the front of
the pool are the tables added to those of `mem0`, and `GLOBAL` is built unless the state is still `st0`. -/
def PoolJ (es : List MemmapEntry) (base : BitVec 64) (m : PageMapper) (mem0 : PhysMem) (st0 : Option GlobalInner)
    (P0 : List Frame) (mem : PhysMem) (st : Option GlobalInner) : Prop :=
  (st.isSome ∨ st = st0) ∧ ∃ T P, P0 = T ++ P ∧ PoolRep es base mem st P ∧ ∀ t, IsTable mem m.l4 t ↔ IsTable mem0 m.l4 t ∨ t ∈ T

/-- `PoolJ` with at least `n` frames left in the pool: the pmm as a budget for `map_page`. -/
def PoolB (es : List MemmapEntry) (base : BitVec 64) (m : PageMapper) (mem0 : PhysMem) (st0 : Option GlobalInner)
    (P0 : List Frame) (n : Nat) (mem : PhysMem) (st : Option GlobalInner) : Prop :=
  (st.isSome ∨ st = st0) ∧ ∃ T P, P0 = T ++ P ∧ PoolRep es base mem st P ∧
    (∀ t, IsTable mem m.l4 t ↔ IsTable mem0 m.l4 t ∨ t ∈ T) ∧ n ≤ P.length

section Alloc

variable {es : List MemmapEntry} {base : BitVec 64} {m : PageMapper} {mem0 : PhysMem} {st0 : Option GlobalInner}
  {P0 : List Frame}

theorem PoolB.poolJ {n : Nat} {mem : PhysMem} {st : Option GlobalInner} (h : PoolB es base m mem0 st0 P0 n mem st) :
    PoolJ es base m mem0 st0 P0 mem st := by
  obtain ⟨hs, T, P, hsplit, hrep, htab, -⟩ := h
  exact ⟨hs, T, P, hsplit, hrep, htab⟩

/-- Under `PoolJ` the pool left holds no table. -/
theorem PoolJ.fresh (hP0 : PoolOk base m mem0 P0) {T P : List Frame} (hsplit : P0 = T ++ P) {mem : PhysMem}
    (htab : ∀ t, IsTable mem m.l4 t ↔ IsTable mem0 m.l4 t ∨ t ∈ T) {f : Frame} (hf : f ∈ P) :
    f.Aligned ∧ ¬ IsTable mem m.l4 f := by
  have hfP0 : f ∈ P0 := hsplit ▸ List.mem_append_right _ hf
  refine ⟨hP0.aligned f hfP0, fun ht => ?_⟩
  rcases (htab f).1 ht with h | h
  · exact hP0.fresh f hfP0 h
  · exact List.disjoint_of_nodup_append (hsplit ▸ hP0.nodup) h hf

/-- The pool left after tables were taken from the front of a fresh pool is fresh. -/
theorem PoolOk.of_split (hP0 : PoolOk base m mem0 P0) {T P : List Frame} (hsplit : P0 = T ++ P) {mem : PhysMem}
    (htab : ∀ t, IsTable mem m.l4 t ↔ IsTable mem0 m.l4 t ∨ t ∈ T) : PoolOk base m mem P :=
  have hs : List.Sublist P P0 := hsplit ▸ List.sublist_append_right _ _
  ⟨hP0.nodup.sublist hs, fun f hf => hP0.aligned f (hs.subset hf), fun f hf => hP0.linkable f (hs.subset hf),
    fun _ hf => (PoolJ.fresh hP0 hsplit htab hf).2, hP0.offset⟩

/-- `PoolJ` over one call, from a state where it held over the calls before, holds over them all. -/
theorem PoolJ.trans {mem st T P} (hs : st.isSome ∨ st = st0) (hsplit : P0 = T ++ P)
    (htab : ∀ t, IsTable mem m.l4 t ↔ IsTable mem0 m.l4 t ∨ t ∈ T) {mem' st'}
    (h : PoolJ es base m mem st P mem' st') : PoolJ es base m mem0 st0 P0 mem' st' := by
  obtain ⟨hs', T', P', rfl, hrep, htab'⟩ := h
  refine ⟨?_, T ++ T', P', by rw [hsplit, List.append_assoc], hrep, fun t => ?_⟩
  · rcases hs' with h | rfl
    · exact .inl h
    · exact hs
  · rw [htab', htab, List.mem_append, or_assoc]

/-- A level-1 write keeps the pool left after tables were taken from the front of a fresh pool, and the tables: it
writes an entry of a table. -/
theorem poolRep_write_leaf (hP0 : PoolOk base m mem0 P0) {T P : List Frame} (hsplit : P0 = T ++ P) {mem : PhysMem}
    {st : Option GlobalInner} {k : Key} {U : Frame} (hw : WellFormed mem m) (hrep : PoolRep es base mem st P)
    (htab : ∀ t, IsTable mem m.l4 t ↔ IsTable mem0 m.l4 t ∨ t ∈ T) (hU : descend mem m.l4 (tablePath k) = some U)
    (v : BitVec 64) :
    PoolRep es base (mem.write (slotAddr U (k.val % 512)) v) st P ∧
      ∀ t, IsTable (mem.write (slotAddr U (k.val % 512)) v) m.l4 t ↔ IsTable mem0 m.l4 t ∨ t ∈ T :=
  ⟨hrep.write_slot m.l4_aligned ⟨_, tablePath_valid k, by simp, hU⟩ (Nat.mod_lt _ (by norm_num))
    (fun f hf => ⟨(PoolJ.fresh hP0 hsplit htab hf).1.1, (PoolJ.fresh hP0 hsplit htab hf).2⟩) v,
    fun t => (isTable_write_leaf hw.tree hU v).trans (htab t)⟩

/-- The level-1 write of `map_page` keeps `PoolJ`. -/
theorem poolJ_write_leaf (hP0 : PoolOk base m mem0 P0) {mem : PhysMem} {st : Option GlobalInner} {k : Key}
    {T : Frame} (hw : WellFormed mem m) (hJ : PoolJ es base m mem0 st0 P0 mem st)
    (hT : descend mem m.l4 (tablePath k) = some T) (v : BitVec 64) :
    PoolJ es base m mem0 st0 P0 (mem.write (slotAddr T (k.val % 512)) v) st := by
  obtain ⟨hs, Tk, P, hsplit, hrep, htab⟩ := hJ
  obtain ⟨hrep', htab'⟩ := poolRep_write_leaf hP0 hsplit hw hrep htab hT v
  exact ⟨hs, Tk, P, hsplit, hrep', htab'⟩

/-- The level-1 write of `map_page` keeps `PoolB`. -/
theorem poolB_write_leaf (hP0 : PoolOk base m mem0 P0) {n : Nat} {mem : PhysMem} {st : Option GlobalInner} {k : Key}
    {T : Frame} (hw : WellFormed mem m) (hB : PoolB es base m mem0 st0 P0 n mem st)
    (hT : descend mem m.l4 (tablePath k) = some T) (v : BitVec 64) :
    PoolB es base m mem0 st0 P0 n (mem.write (slotAddr T (k.val % 512)) v) st := by
  obtain ⟨hs, Tk, P, hsplit, hrep, htab, hn⟩ := hB
  obtain ⟨hrep', htab'⟩ := poolRep_write_leaf hP0 hsplit hw hrep htab hT v
  exact ⟨hs, Tk, P, hsplit, hrep', htab', hn⟩

/-- Linking the pool's first frame `f` as a table keeps the rest of the pool: the two writes fall in a table and in
`f`, and neither is the first word of another frame of the pool. -/
theorem PoolRep.link {mem : PhysMem} {st : Option GlobalInner} {f : Frame} {P : List Frame} {Q : List Nat} {U : Frame}
    {i : Nat} (hP : PoolOk base m mem (f :: P)) (hrep : PoolRep es base mem st P) (site : LinkSite mem m.l4 Q U i f) :
    PoolRep es base (linkTable mem U i f) st P :=
  hrep.congr fun h hh' => by
    have hhf : h ≠ f := fun e => (List.nodup_cons.1 hP.nodup).1 (e ▸ hh')
    have hU : IsTable mem m.l4 U := ⟨Q, site.path, by have := site.short; omega, site.table⟩
    have hh0 := hP.aligned h (List.mem_cons_of_mem _ hh')
    rw [linkTable, write_apply, if_neg (Ne.symm (slotAddr_ne_addr (hU.aligned m.l4_aligned) hh0.1 site.index
      fun e => hP.fresh h (List.mem_cons_of_mem _ hh') (e ▸ hU))), zeroFrame_apply, if_neg]
    have := slotAddr_not_inRegion (i := 0) hh0.1 site.aligned.1 (by norm_num) hhf
    simpa [slotAddr] using this

/-- Two lists of distinct frames, none a table before, that are each the tables a call added have the same length. -/
theorem newTables_length {root : Frame} {mem mem' : PhysMem} {T T' : List Frame} (hT : T.Nodup) (hT' : T'.Nodup)
    (hfT : ∀ t ∈ T, ¬ IsTable mem root t) (hfT' : ∀ t ∈ T', ¬ IsTable mem root t)
    (htab : ∀ t, IsTable mem' root t ↔ IsTable mem root t ∨ t ∈ T)
    (htab' : ∀ t, IsTable mem' root t ↔ IsTable mem root t ∨ t ∈ T') : T.length = T'.length :=
  ((List.perm_ext_iff_of_nodup hT hT').2 fun t =>
    ⟨fun ht => ((htab' t).1 ((htab t).2 (.inr ht))).resolve_left (hfT t ht),
      fun ht => ((htab t).1 ((htab' t).2 (.inr ht))).resolve_left (hfT' t ht)⟩).length_eq

variable {boot : BootInfo} (hmm : boot.memmap = some es) (hh : boot.hhdmOffset = some base)
  (hent : ∀ e ∈ es, e.typ = .Usable → e.base.toNat + e.len.toNat < 2 ^ 64)
include hmm hh hent

/-- The pmm, over a fresh pool, is an allocator `map_page` can use, and the frames it takes become the new tables. -/
theorem pool_allocSpec (hm : m.hhdm = ⟨base⟩) (hP0 : PoolOk base m mem0 P0) :
    AllocSpec m (Global.allocator boot) (PoolJ es base m mem0 st0 P0) := by
  rintro mem st hw ⟨-, T, P, hsplit, hrep, htab⟩
  have hP : PoolOk base m mem P := hP0.of_split hsplit htab
  obtain ⟨g, hal, hrep'⟩ := PoolRep.allocate hmm hh hent hrep hP
  rcases P with _ | ⟨f, P⟩
  · exact ⟨_, _, hal, fun _ _ => ⟨.inl rfl, T, [], hsplit, hrep', htab⟩, nofun⟩
  refine ⟨_, _, hal, nofun, fun f' hf' => ?_⟩
  cases hf'
  have hfm : f ∈ f :: P := List.mem_cons_self _ _
  refine ⟨hP.aligned f hfm, by rw [hm]; exact hP.linkable f hfm, hP.fresh f hfm,
    fun Q U i site => ⟨.inl rfl, T ++ [f], P, by rw [hsplit, List.append_assoc]; rfl, hrep'.link hP site,
      fun t => ?_⟩⟩
  rw [isTable_linkTable site hw.tree, htab, List.mem_append, List.mem_singleton, or_assoc]

/-- The pmm, over a fresh pool with frames left, is a budget for `map_page`: each allocation takes the pool's first
frame, which becomes a new table. -/
theorem pool_allocBudget (hP0 : PoolOk base m mem0 P0) :
    AllocBudget m (Global.allocator boot) (PoolB es base m mem0 st0 P0) := by
  rintro n mem st hw ⟨-, T, P, hsplit, hrep, htab, hn⟩
  rcases P with _ | ⟨f, P⟩
  · simp at hn
  have hP : PoolOk base m mem (f :: P) := hP0.of_split hsplit htab
  obtain ⟨g, hal, hrep'⟩ := PoolRep.allocate hmm hh hent hrep hP
  refine ⟨f, some g, hal, fun Q U i site => ⟨.inl rfl, T ++ [f], P, by rw [hsplit, List.append_assoc]; rfl,
    hrep'.link hP site, fun t => ?_, by simpa using hn⟩⟩
  rw [isTable_linkTable site hw.tree, htab, List.mem_append, List.mem_singleton, or_assoc]

/-- One `map_page` with the pmm over a fresh pool `P` takes at most three frames for tables, and it does not run out of
frames when the pool holds three. -/
theorem mapPage_pool_budget (hm : m.hhdm = ⟨base⟩) {mem : PhysMem} {st : Option GlobalInner} {P : List Frame}
    (hP : PoolOk base m mem P) (hrep : PoolRep es base mem st P) (hw : WellFormed mem m) {p : Page} {frame : Frame}
    {flags : PageFlags} (hn : NoHugeOnWalk mem m.l4 (pageKey p.addr)) {r : Except MapError Unit} {mem' : PhysMem}
    {st' : Option GlobalInner} (hmap : m.mapPage (Global.allocator boot) p frame flags mem st = .ok (r, mem', st'))
    {T P' : List Frame} (hsplit : P = T ++ P') (htab : ∀ t, IsTable mem' m.l4 t ↔ IsTable mem m.l4 t ∨ t ∈ T) :
    T.length ≤ 3 ∧ (3 ≤ P.length → ∀ e, r ≠ .error (.PhysAllocError e)) := by
  by_cases h3 : 3 ≤ P.length
  · obtain ⟨r', mem'', st'', n', hmap', hr', hle, hB⟩ := mapPage_budget (pool_allocSpec hmm hh hent hm hP)
      (pool_allocBudget hmm hh hent hP) (fun _ _ _ h => h.poolJ) (fun _ _ _ _ hw hB hT => poolB_write_leaf hP hw hB hT _)
      hw (⟨.inr rfl, [], P, rfl, hrep, fun t => by simp, le_rfl⟩ : PoolB es base m mem st P P.length mem st) h3 hn
    rw [hmap, Except.ok.injEq, Prod.mk.injEq, Prod.mk.injEq] at hmap'
    obtain ⟨rfl, rfl, rfl⟩ := hmap'
    obtain ⟨-, T', P'', hsplit', -, htab', hn'⟩ := hB
    have hnd : (T ++ P').Nodup := hsplit ▸ hP.nodup
    have hnd' : (T' ++ P'').Nodup := hsplit' ▸ hP.nodup
    have heq : T.length = T'.length := newTables_length (List.nodup_append.1 hnd).1 (List.nodup_append.1 hnd').1
      (fun t ht => hP.fresh t (hsplit ▸ List.mem_append_left _ ht))
      (fun t ht => hP.fresh t (hsplit' ▸ List.mem_append_left _ ht)) htab htab'
    have hl := congrArg List.length hsplit'
    simp only [List.length_append] at hl
    exact ⟨by omega, fun _ => hr'⟩
  · exact ⟨by have := congrArg List.length hsplit; simp at this; omega, fun h => absurd h h3⟩

end Alloc

end Ithaca
