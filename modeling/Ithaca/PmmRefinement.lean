import Ithaca.Pmm

/-!
# The frame allocator is a stack over a list

The reference allocator (`RefPmm`) is a stack of freed frames over the frames the usable entries hold
(`usableFrames`). The pmm holds its state (`PmmRep`): the freelist in memory spells out the stack (`FreelistRep`), and
`current` with the entries left spells out the list. Each call keeps the representation, so over every run whose frees
keep `deallocate_frame`'s contract the pmm returns what the reference returns (`global_refines`). That needs each frame's
direct-map address to be a nonzero word (`pmm_loses_frame_zero`) and the offset to be page-aligned, or the debug build
stops at the first `*mut Node` it dereferences.
-/
namespace Ithaca

/-! ## The reference allocator -/

/-- `count` frames from address `start`, 4096 bytes apart. -/
def rangeFrames (start count : Nat) : List Frame :=
  (List.range count).map fun i => ⟨BitVec.ofNat 64 (start + 4096 * i)⟩

/-- The frames `memmap_pop` will still carve from `current`. -/
def U64Range.frames (r : U64Range) : List Frame := rangeFrames r.start.toNat ((r.stop.toNat - r.start.toNat) / 4096)

/-- The frames of the usable entries, in firmware order: `floor(len / 4096)` frames from the base of each. -/
def usableFrames : List MemmapEntry → List Frame
  | [] => []
  | e :: es => (if e.typ = .Usable then rangeFrames e.base.toNat (e.len.toNat / 4096) else []) ++ usableFrames es

/-- The reference allocator: a stack of freed frames over the frames not yet carved, and the frames handed out and not
freed since (what the contract of `deallocate_frame` speaks of). -/
structure RefPmm where
  stack : List Frame
  rest : List Frame
  held : List Frame
deriving DecidableEq, Repr

/-- Nothing freed and nothing handed out yet. -/
def RefPmm.init (es : List MemmapEntry) : RefPmm := ⟨[], usableFrames es, []⟩

/-- Pop the stack, else take the head of the list, else fail. -/
def RefPmm.allocate (r : RefPmm) : Except PhysAllocError Frame × RefPmm :=
  match r.stack, r.rest with
  | f :: s, _ => (.ok f, { r with stack := s, held := f :: r.held })
  | [], f :: l => (.ok f, { r with rest := l, held := f :: r.held })
  | [], [] => (.error ⟨⟩, r)

/-- Push the frame. -/
def RefPmm.deallocate (r : RefPmm) (f : Frame) : RefPmm :=
  { r with stack := f :: r.stack, held := r.held.filter (· ≠ f) }

/-- The reference's results over a run of calls. -/
def runRef : RefPmm → List PmmCall → List (Option (Except PhysAllocError Frame)) × RefPmm
  | r, [] => ([], r)
  | r, .allocate :: cs => (some r.allocate.1 :: (runRef r.allocate.2 cs).1, (runRef r.allocate.2 cs).2)
  | r, .deallocate f :: cs => (none :: (runRef (r.deallocate f) cs).1, (runRef (r.deallocate f) cs).2)

/-- The contract of `deallocate_frame` over a run: every frame freed is page-aligned and currently held. -/
def ValidCalls : RefPmm → List PmmCall → Prop
  | _, [] => True
  | r, .allocate :: cs => ValidCalls r.allocate.2 cs
  | r, .deallocate f :: cs => f.addr.toNat % 4096 = 0 ∧ f ∈ r.held ∧ ValidCalls (r.deallocate f) cs

/-- What the reference keeps over valid runs: the stack holds distinct page-aligned frames, none of them held, and
every frame of the stack, the list and the held ones can be linked. -/
structure RefInv (base : BitVec 64) (r : RefPmm) : Prop where
  nodup : r.stack.Nodup
  disjoint : ∀ f ∈ r.stack, f ∉ r.held
  linkable : ∀ f, f ∈ r.stack ∨ f ∈ r.rest ∨ f ∈ r.held → Linkable base f
  aligned : ∀ f ∈ r.stack, f.addr.toNat % 4096 = 0

theorem RefInv.allocate {base : BitVec 64} {r : RefPmm} (h : RefInv base r) : RefInv base r.allocate.2 := by
  obtain ⟨stack, rest, held⟩ := r
  obtain ⟨hnd, hdis, hlink, hal⟩ := h
  cases stack with
  | cons f s =>
    refine ⟨(List.nodup_cons.1 hnd).2, fun g hg hgh => ?_, fun g hg => hlink g ?_,
      fun g hg => hal g (List.mem_cons_of_mem _ hg)⟩
    · rcases List.mem_cons.1 hgh with rfl | hgh
      · exact (List.nodup_cons.1 hnd).1 hg
      · exact hdis g (List.mem_cons_of_mem _ hg) hgh
    · simp only [RefPmm.allocate, List.mem_cons] at hg ⊢
      tauto
  | nil =>
    cases rest with
    | nil => exact ⟨hnd, hdis, hlink, hal⟩
    | cons f l =>
      refine ⟨hnd, fun g hg => by simp [RefPmm.allocate] at hg, fun g hg => hlink g ?_, hal⟩
      simp only [RefPmm.allocate, List.mem_cons, List.not_mem_nil, false_or] at hg ⊢
      tauto

theorem RefInv.deallocate {base : BitVec 64} {r : RefPmm} (h : RefInv base r) {f : Frame} (hf : f ∈ r.held)
    (hfa : f.addr.toNat % 4096 = 0) : RefInv base (r.deallocate f) := by
  obtain ⟨hnd, hdis, hlink, hal⟩ := h
  refine ⟨List.nodup_cons.2 ⟨fun hs => hdis f hs hf, hnd⟩, fun g hg hgh => ?_, fun g hg => hlink g ?_,
    fun g hg => (List.mem_cons.1 hg).elim (· ▸ hfa) (hal g)⟩
  · simp only [RefPmm.deallocate, List.mem_filter, decide_eq_true_eq] at hgh
    rcases List.mem_cons.1 hg with rfl | hg
    · exact hgh.2 rfl
    · exact hdis g hg hgh.1
  · simp only [RefPmm.deallocate, List.mem_cons, List.mem_filter, decide_eq_true_eq] at hg
    rcases hg with (rfl | hg) | hg | hg
    · exact .inr (.inr hf)
    · exact .inl hg
    · exact .inr (.inl hg)
    · exact .inr (.inr hg.1)

/-! ## The memory map -/

theorem rangeFrames_zero (start : Nat) : rangeFrames start 0 = [] := rfl

theorem rangeFrames_succ (start n : Nat) :
    rangeFrames start (n + 1) = ⟨BitVec.ofNat 64 start⟩ :: rangeFrames (start + 4096) n := by
  have h : ∀ i, start + 4096 * (i + 1) = start + 4096 + 4096 * i := fun i => by omega
  simp only [rangeFrames, List.range_succ_eq_map, List.map_cons, List.map_map, Nat.mul_zero, Nat.add_zero,
    Function.comp_def, Nat.succ_eq_add_one, h]

/-- The loop of `memmap_pop` keeps the frames still to carve; when it finds one, `current` holds a whole frame, and
otherwise no entry is left. -/
theorem memmapLoop_spec : ∀ (es : List MemmapEntry) (cur : U64Range), cur.start.toNat ≤ cur.stop.toNat →
    (∀ e ∈ es, e.typ = .Usable → e.base.toNat + e.len.toNat < 2 ^ 64) →
    ∃ found cur' es', memmapLoop cur es = .ok (found, cur', es') ∧ cur'.start.toNat ≤ cur'.stop.toNat ∧
      (∀ e ∈ es', e.typ = .Usable → e.base.toNat + e.len.toNat < 2 ^ 64) ∧
      cur'.frames ++ usableFrames es' = cur.frames ++ usableFrames es ∧
      (found = true → 4096 ≤ cur'.stop.toNat - cur'.start.toNat) ∧ (found = false → cur'.frames = [] ∧ es' = [])
  | es, cur, hord, hent => by
    have hlen : (cur.stop - cur.start).toNat = cur.stop.toNat - cur.start.toNat := BitVec.toNat_sub_of_le hord
    have hsmall : cur.stop.toNat - cur.start.toNat < 4096 → cur.frames = [] := fun h => by
      rw [U64Range.frames, Nat.div_eq_of_lt h, rangeFrames_zero]
    by_cases hlt : cur.stop.toNat - cur.start.toNat < 4096
    · cases es with
      | nil =>
        refine ⟨false, cur, [], ?_, hord, hent, rfl, nofun, fun _ => ⟨hsmall hlt, rfl⟩⟩
        rw [memmapLoop, subOrPanic_of_le hord, except_ok_bind, hlen, if_pos hlt]
        rfl
      | cons e es =>
        have hent' : ∀ e ∈ es, e.typ = .Usable → e.base.toNat + e.len.toNat < 2 ^ 64 := fun e' he' =>
          hent e' (List.mem_cons_of_mem _ he')
        by_cases hu : e.typ = .Usable
        · have hfit := hent e (List.mem_cons_self _ _) hu
          have hs : (e.base + e.len).toNat = e.base.toNat + e.len.toNat := toNat_add_of_lt hfit
          obtain ⟨found, cur', es', hrun, h1, h2, h3, h4⟩ :=
            memmapLoop_spec es ⟨e.base, e.base + e.len⟩ (by simp only [hs]; omega) hent'
          refine ⟨found, cur', es', ?_, h1, h2, ?_, h4⟩
          · rw [memmapLoop, subOrPanic_of_le hord, except_ok_bind, hlen, if_pos hlt]
            simp only [hu, bne_self_eq_false, Bool.false_eq_true, if_false, addOrPanic_of_lt hfit,
              except_ok_bind, hrun]
          · rw [h3, hsmall hlt, usableFrames, if_pos hu, U64Range.frames]
            simp only [hs, List.nil_append, Nat.add_sub_cancel_left]
        · obtain ⟨found, cur', es', hrun, h1, h2, h3, h4⟩ := memmapLoop_spec es cur hord hent'
          refine ⟨found, cur', es', ?_, h1, h2, ?_, h4⟩
          · rw [memmapLoop, subOrPanic_of_le hord, except_ok_bind, hlen, if_pos hlt]
            simp only [bne_iff_ne, ne_eq, hu, not_false_eq_true, if_true, hrun]
          · rw [h3, usableFrames, if_neg hu, List.nil_append]
    · refine ⟨true, cur, es, ?_, hord, hent, rfl, fun _ => by omega, nofun⟩
      cases es <;> rw [memmapLoop, subOrPanic_of_le hord, except_ok_bind, hlen, if_neg hlt] <;> rfl

/-- The part of `GlobalInner` that spells out the list: `current` with the entries left. -/
def GlobalInner.memmapFrames (g : GlobalInner) : List Frame := g.current.frames ++ usableFrames g.entries

/-- `current` is a range and every usable entry left fits below `2^64`: `memmap_pop` does not panic. -/
def GlobalInner.MemmapOk (g : GlobalInner) : Prop :=
  g.current.start.toNat ≤ g.current.stop.toNat ∧ ∀ e ∈ g.entries, e.typ = .Usable → e.base.toNat + e.len.toNat < 2 ^ 64

/-- `memmap_pop` returns the first frame still to carve and keeps the rest, or `None` when there is none left; it
touches neither the direct map nor the freelist. -/
theorem memmapPop_spec {g : GlobalInner} (hg : g.MemmapOk) :
    ∃ r g', g.memmapPop = .ok (r, g') ∧ g'.hhdm = g.hhdm ∧ g'.free = g.free ∧ g'.MemmapOk ∧
      match g.memmapFrames with
      | [] => r = none ∧ g'.memmapFrames = []
      | f :: rest => r = some f ∧ g'.memmapFrames = rest := by
  obtain ⟨found, cur, es, hrun, hord, hent, hframes, hfound, hnot⟩ := memmapLoop_spec g.entries g.current hg.1 hg.2
  simp only [GlobalInner.memmapPop, hrun, except_ok_bind]
  cases found with
  | false =>
    obtain ⟨hc, rfl⟩ := hnot rfl
    refine ⟨_, _, rfl, rfl, rfl, ⟨hord, hent⟩, ?_⟩
    rw [GlobalInner.memmapFrames, ← hframes, hc]
    exact ⟨rfl, by simp [GlobalInner.memmapFrames, hc, usableFrames]⟩
  | true =>
    have h4 := hfound rfl
    have hfit : cur.start.toNat + (4096 : BitVec 64).toNat < 2 ^ 64 := by
      have := cur.stop.isLt
      rw [show (4096 : BitVec 64).toNat = 4096 from rfl]
      omega
    have hs : (cur.start + 4096).toNat = cur.start.toNat + 4096 := by rw [toNat_add_of_lt hfit]; rfl
    have hn : (cur.stop.toNat - cur.start.toNat) / 4096 = (cur.stop.toNat - (cur.start.toNat + 4096)) / 4096 + 1 := by
      omega
    have hcf : cur.frames = ⟨cur.start⟩ :: U64Range.frames ⟨cur.start + 4096, cur.stop⟩ := by
      rw [U64Range.frames, hn, rangeFrames_succ, U64Range.frames, hs]
      simp
    rw [if_pos rfl, addOrPanic_of_lt hfit, except_ok_bind, except_pure_eq_ok]
    refine ⟨_, _, rfl, rfl, rfl, ⟨by simp only [hs]; omega, hent⟩, ?_⟩
    rw [GlobalInner.memmapFrames, ← hframes, hcf]
    exact ⟨rfl, rfl⟩

/-! ## The freelist -/

/-- The freelist in memory holds the stack `s`: the head word is the first frame's direct-map address (zero for the
empty stack), and each frame's first word is the next one's. -/
def FreelistRep (base : BitVec 64) (mem : PhysMem) : BitVec 64 → List Frame → Prop
  | w, [] => w = 0
  | w, f :: s => w = f.addr + base ∧ FreelistRep base mem (mem f.addr.toNat) s

/-- The freelist reads only the first words of its frames. -/
theorem FreelistRep.congr {base : BitVec 64} {mem mem' : PhysMem} :
    ∀ {w : BitVec 64} {s : List Frame}, (∀ f ∈ s, mem' f.addr.toNat = mem f.addr.toNat) →
      FreelistRep base mem w s → FreelistRep base mem' w s
  | _, [], _, h => h
  | _, f :: s, hagree, ⟨hw, hrest⟩ => by
    refine ⟨hw, ?_⟩
    rw [hagree f (List.mem_cons_self _ _)]
    exact FreelistRep.congr (fun g hg => hagree g (List.mem_cons_of_mem _ hg)) hrest

theorem Linkable.ne_zero {base : BitVec 64} {f : Frame} (h : Linkable base f) : f.addr + base ≠ 0 := fun h0 => by
  have := congrArg BitVec.toNat h0
  rw [toNat_add_of_lt h.1] at this
  exact h.2 this

/-- A page-aligned linkable frame at a page-aligned offset passes the debug build's check on its node. -/
theorem Linkable.derefNode {base : BitVec 64} {f : Frame} (h : Linkable base f) (hb : base.toNat % 4096 = 0)
    (hfa : f.addr.toNat % 4096 = 0) : derefNode (f.addr + base) = .ok () := by
  rw [Ithaca.derefNode, if_pos (by rw [toNat_add_of_lt h.1]; omega)]

/-- `freelist_pop` of the empty stack returns `None` and changes nothing. -/
theorem freelistPop_nil {base : BitVec 64} {mem : PhysMem} {g : GlobalInner} (hrep : FreelistRep base mem g.free []) :
    g.freelistPop mem = .ok (none, g) := by
  rw [GlobalInner.freelistPop, if_pos (show g.free = 0 from hrep)]

/-- `freelist_pop` of a nonempty stack returns its top frame and leaves the rest of it. -/
theorem freelistPop_cons {base : BitVec 64} {mem : PhysMem} {g : GlobalInner} {f : Frame} {s : List Frame}
    (hh : g.hhdm = ⟨base⟩) (hrep : FreelistRep base mem g.free (f :: s)) (hf : Linkable base f)
    (hb : base.toNat % 4096 = 0) (hfa : f.addr.toNat % 4096 = 0) :
    g.freelistPop mem = .ok (some f, { g with free := mem f.addr.toNat }) := by
  obtain ⟨hw, -⟩ := hrep
  have hsub : (f.addr + base - base) = f.addr := by simp
  have hle : base.toNat ≤ (f.addr + base).toNat := by rw [toNat_add_of_lt hf.1]; omega
  rw [GlobalInner.freelistPop, if_neg (hw ▸ hf.ne_zero), Hhdm.toPhysical, hh, hw, hf.derefNode hb hfa,
    except_ok_bind, subOrPanic_of_le hle, except_ok_bind, hsub]
  rfl

/-- `freelist_push` of a linkable frame not on the stack puts it on top. -/
theorem freelistPush_spec {base : BitVec 64} {mem : PhysMem} {g : GlobalInner} {f : Frame} {s : List Frame}
    (hh : g.hhdm = ⟨base⟩) (hrep : FreelistRep base mem g.free s) (hf : Linkable base f) (hfs : f ∉ s)
    (hb : base.toNat % 4096 = 0) (hfa : f.addr.toNat % 4096 = 0) :
    g.freelistPush mem f = .ok (mem.write f.addr.toNat g.free, { g with free := f.addr + base }) ∧
      FreelistRep base (mem.write f.addr.toNat g.free) (f.addr + base) (f :: s) := by
  refine ⟨by rw [GlobalInner.freelistPush, Hhdm.toVirtual, hh, addOrPanic_of_lt hf.1, except_ok_bind,
    hf.derefNode hb hfa]; rfl, rfl, ?_⟩
  rw [write_apply, if_pos rfl]
  refine FreelistRep.congr (fun g hg => ?_) hrep
  rw [write_apply, if_neg]
  intro he
  exact hfs (Frame.eq_of_toNat_eq he ▸ hg)

/-! ## The allocator holds the reference state -/

/-- The pmm's state holds the reference state: the freelist in memory is the stack, and the memory map left is the
list. -/
structure PmmRep (base : BitVec 64) (mem : PhysMem) (g : GlobalInner) (r : RefPmm) : Prop where
  hhdm : g.hhdm = ⟨base⟩
  free : FreelistRep base mem g.free r.stack
  rest : g.memmapFrames = r.rest
  memmap : g.MemmapOk

/-- Before the first allocation `GLOBAL` is `None` and the reference is where it starts; after it, the pmm holds the
reference state. -/
def PmmSim (es : List MemmapEntry) (base : BitVec 64) (mem : PhysMem) : Option GlobalInner → RefPmm → Prop
  | none, r => r = RefPmm.init es
  | some g, r => PmmRep base mem g r

section Sim

variable {boot : BootInfo} {es : List MemmapEntry} {base : BitVec 64}
  (hmm : boot.memmap = some es) (hh : boot.hhdmOffset = some base)
  (hent : ∀ e ∈ es, e.typ = .Usable → e.base.toNat + e.len.toNat < 2 ^ 64) (hb : base.toNat % 4096 = 0)
include hmm hh hent hb

omit hb in
/-- `GLOBAL` as the first allocation builds it holds the initial reference state. -/
theorem withLimine_rep (mem : PhysMem) :
    GlobalInner.withLimine boot = .ok (some ⟨⟨base⟩, 0, ⟨0, 0⟩, es⟩) ∧
      PmmRep base mem ⟨⟨base⟩, 0, ⟨0, 0⟩, es⟩ (RefPmm.init es) := by
  refine ⟨by simp [GlobalInner.withLimine, Hhdm.withLimine, hmm, hh], rfl, rfl, ?_, ⟨le_rfl, hent⟩⟩
  simp [GlobalInner.memmapFrames, U64Range.frames, rangeFrames, RefPmm.init]

/-- `allocate_frame` returns what the reference returns and keeps the representation. -/
theorem allocateFrame_sim {mem : PhysMem} {st : Option GlobalInner} {r : RefPmm} (hsim : PmmSim es base mem st r)
    (hinv : RefInv base r) :
    ∃ g', Global.allocateFrame boot mem st = .ok (r.allocate.1, some g') ∧ PmmSim es base mem (some g') r.allocate.2 := by
  obtain ⟨g, hst, hrep⟩ : ∃ g, Global.inner boot st = .ok (some g) ∧ PmmRep base mem g r := by
    cases st with
    | none =>
      cases hsim
      exact ⟨_, (withLimine_rep hmm hh hent mem).1, (withLimine_rep hmm hh hent mem).2⟩
    | some g => exact ⟨g, rfl, hsim⟩
  simp only [Global.allocateFrame, hst, except_ok_bind]
  obtain ⟨stack, rest, held⟩ := r
  obtain ⟨hhd, hfree, hrest, hok⟩ := hrep
  cases stack with
  | cons f s =>
    rw [freelistPop_cons hhd hfree (hinv.linkable f (.inl (List.mem_cons_self _ _))) hb
      (hinv.aligned f (List.mem_cons_self _ _)), except_ok_bind]
    exact ⟨_, rfl, hhd, hfree.2, hrest, hok⟩
  | nil =>
    rw [freelistPop_nil hfree, except_ok_bind]
    obtain ⟨r', g', hpop, hhd', hfree', hok', hmatch⟩ := memmapPop_spec hok
    rw [hpop, except_ok_bind]
    simp only at hrest
    rw [hrest] at hmatch
    cases rest with
    | nil =>
      obtain ⟨rfl, hrest'⟩ := hmatch
      exact ⟨_, rfl, hhd'.trans hhd, by rw [hfree']; exact hfree, hrest', hok'⟩
    | cons f l =>
      obtain ⟨rfl, hrest'⟩ := hmatch
      exact ⟨_, rfl, hhd'.trans hhd, by rw [hfree']; exact hfree, hrest', hok'⟩

omit hmm hh hent in
/-- `deallocate_frame` of a held page-aligned frame pushes it, as the reference does. -/
theorem deallocateFrame_sim {mem : PhysMem} {st : Option GlobalInner} {r : RefPmm} (hsim : PmmSim es base mem st r)
    (hinv : RefInv base r) {f : Frame} (hf : f ∈ r.held) (hfa : f.addr.toNat % 4096 = 0) :
    ∃ mem' st', Global.deallocateFrame mem st f = .ok (mem', st') ∧ PmmSim es base mem' st' (r.deallocate f) ∧
      ∀ a, a ≠ f.addr.toNat → mem' a = mem a := by
  cases st with
  | none =>
    cases hsim
    simp [RefPmm.init] at hf
  | some g =>
    obtain ⟨hpush, hrep'⟩ := freelistPush_spec hsim.hhdm hsim.free (hinv.linkable f (.inr (.inr hf)))
      (fun hs => hinv.disjoint f hs hf) hb hfa
    refine ⟨mem.write f.addr.toNat g.free, some { g with free := f.addr + base },
      by rw [Global.deallocateFrame, hpush]; rfl, ⟨hsim.hhdm, hrep', hsim.rest, hsim.memmap⟩,
      fun a ha => by rw [write_apply, if_neg ha]⟩

/-- Over a run whose frees keep the contract, the pmm returns what the reference returns. -/
theorem runPmm_sim : ∀ (cs : List PmmCall) (mem : PhysMem) (st : Option GlobalInner) (r : RefPmm),
    PmmSim es base mem st r → RefInv base r → ValidCalls r cs →
    ∃ mem' st', runPmm boot mem st cs = .ok ((runRef r cs).1, mem', st') ∧ PmmSim es base mem' st' (runRef r cs).2
  | [], mem, st, _, hsim, _, _ => ⟨mem, st, rfl, hsim⟩
  | .allocate :: cs, mem, st, r, hsim, hinv, hv => by
    obtain ⟨g1, hal, hsim1⟩ := allocateFrame_sim hmm hh hent hb hsim hinv
    obtain ⟨mem', st', hrun, hsim'⟩ := runPmm_sim cs mem (some g1) _ hsim1 hinv.allocate hv
    exact ⟨mem', st', by simp only [runPmm, hal, hrun, except_ok_bind, except_pure_eq_ok, runRef], hsim'⟩
  | .deallocate f :: cs, mem, st, r, hsim, hinv, ⟨hfa, hf, hv⟩ => by
    obtain ⟨mem1, st1, hde, hsim1, -⟩ := deallocateFrame_sim hb hsim hinv hf hfa
    obtain ⟨mem', st', hrun, hsim'⟩ := runPmm_sim cs mem1 st1 _ hsim1 (hinv.deallocate hf hfa) hv
    exact ⟨mem', st', by simp only [runPmm, hde, hrun, except_ok_bind, except_pure_eq_ok, runRef], hsim'⟩

end Sim

/-- The pmm refines the reference allocator. With the usable entries below `2^64`, every frame they hold linkable and
the direct map's offset page-aligned, every run from the boot state whose frees are page-aligned and held never panics
and returns what the reference returns. -/
theorem global_refines (boot : BootInfo) (es : List MemmapEntry) (base : BitVec 64) (hmm : boot.memmap = some es)
    (hh : boot.hhdmOffset = some base) (hent : ∀ e ∈ es, e.typ = .Usable → e.base.toNat + e.len.toNat < 2 ^ 64)
    (hlink : ∀ f ∈ usableFrames es, f.addr.toNat + base.toNat < 2 ^ 64 ∧ f.addr.toNat + base.toNat ≠ 0)
    (hb : base.toNat % 4096 = 0) (cs : List PmmCall) (hv : ValidCalls (RefPmm.init es) cs) (mem : PhysMem) :
    ∃ mem' st', runPmm boot mem none cs = .ok ((runRef (RefPmm.init es) cs).1, mem', st') := by
  have hinv : RefInv base (RefPmm.init es) :=
    ⟨List.nodup_nil, nofun, fun f hf => by
      simp only [RefPmm.init, List.not_mem_nil, false_or, or_false] at hf
      exact hlink f hf, nofun⟩
  obtain ⟨mem', st', hrun, -⟩ := runPmm_sim hmm hh hent hb cs mem none _ rfl hinv hv
  exact ⟨mem', st', hrun⟩

/-- Boot with one usable frame at address 0 and the direct map at offset 0. -/
def nullBoot : BootInfo := ⟨some [⟨0, 4096, .Usable⟩], some 0, none, 0⟩

/-- The refinement at `nullBoot`'s memory map with the direct map moved to `0x80000000`: take frame 0, free it, take
it again. -/
def offsetBoot : BootInfo := ⟨some [⟨0, 4096, .Usable⟩], some 0x80000000, none, 0⟩

theorem global_refines_offset :
    ∃ mem' st', runPmm offsetBoot (fun _ => 0) none [.allocate, .deallocate ⟨0⟩, .allocate] =
      .ok ((runRef (RefPmm.init [⟨0, 4096, .Usable⟩]) [.allocate, .deallocate ⟨0⟩, .allocate]).1, mem', st') :=
  global_refines offsetBoot [⟨0, 4096, .Usable⟩] 0x80000000 rfl rfl (by decide) (by decide) (by decide)
    [.allocate, .deallocate ⟨0⟩, .allocate] ⟨by decide, by decide, trivial⟩ (fun _ => 0)

/-- With the direct map at offset 0, freeing frame 0 pushes `Some(null)`, which is `None`: the next allocation finds
the freelist empty and the memory map used up, where the reference pops frame 0. Every other condition holds. -/
theorem pmm_loses_frame_zero :
    (∀ e ∈ [(⟨0, 4096, .Usable⟩ : MemmapEntry)], e.typ = .Usable → e.base.toNat + e.len.toNat < 2 ^ 64) ∧
      (∀ f ∈ usableFrames [⟨0, 4096, .Usable⟩], f.addr.toNat + (0 : BitVec 64).toNat < 2 ^ 64) ∧
      ValidCalls (RefPmm.init [⟨0, 4096, .Usable⟩]) [.allocate, .deallocate ⟨0⟩, .allocate] ∧
      (runRef (RefPmm.init [⟨0, 4096, .Usable⟩]) [.allocate, .deallocate ⟨0⟩, .allocate]).1 =
        [some (.ok ⟨0⟩), none, some (.ok ⟨0⟩)] ∧
      ∃ mem' st', runPmm nullBoot (fun _ => 0) none [.allocate, .deallocate ⟨0⟩, .allocate] =
        .ok ([some (.ok ⟨0⟩), none, some (.error ⟨⟩)], mem', st') :=
  ⟨by decide, by decide, ⟨by decide, by decide, trivial⟩, rfl, _, _, rfl⟩

end Ithaca
