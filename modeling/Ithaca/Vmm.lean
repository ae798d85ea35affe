import Ithaca.Types

/-!
# The virtual region allocator

`vmm.rs`'s `BumpAllocator`: a window `full` of pages and a cursor `pos`, advanced by `allocate_region(n)` to
`pos + 4096 * n` when that neither overflows nor passes `full.end`; a failed call leaves the cursor where it was.
Nothing is ever given back.

`allocateRegion_eq` says once what a call does. From it, over any sequence of requests (`runRegions`), the cursor
stays in the window and the regions handed out are consecutive: each starts where the previous one ended
(`runRegions_consecutive`), so they are pairwise disjoint and cover the window from its start to the cursor.
-/

namespace Ithaca

/-- `VirtAllocError`. -/
inductive VirtAllocError
  | VirtualAddressSpaceExhausted
deriving DecidableEq, Repr

/-- `NonZeroUsize`: a `usize` that is not zero. -/
structure NonZeroUsize where
  get : BitVec 64
  ne_zero : get ≠ 0

/-- `BumpAllocator { full, pos: Cell<Page> }`; the cell's value is the field `pos`. -/
structure BumpAllocator where
  full : PageRange
  pos : Page
deriving DecidableEq, Repr

/-- `BumpAllocator::new(full)`: the cursor starts at `full.start`. -/
def BumpAllocator.new (full : PageRange) : BumpAllocator := ⟨full, full.start⟩

/-- `allocate_region(pages)`, with the allocator after the call (the cell is written only on success). -/
def BumpAllocator.allocateRegion (b : BumpAllocator) (pages : NonZeroUsize) :
    Except VirtAllocError PageRange × BumpAllocator :=
  let start := b.pos
  match start.forwardChecked pages.get with
  | none => (.error .VirtualAddressSpaceExhausted, b)
  | some stop =>
    if b.full.stop.addr < stop.addr then (.error .VirtualAddressSpaceExhausted, b)
    else (.ok ⟨start, stop⟩, { b with pos := stop })

/-- Whether a request of `n` pages from the cursor `p` fits: `p + 4096 * n` is a `usize` and at most the window's end. -/
def regionFits (p : Page) (stop : Page) (n : NonZeroUsize) : Prop :=
  p.addr.toNat + n.get.toNat * 4096 < 2 ^ 64 ∧ p.addr.toNat + n.get.toNat * 4096 ≤ stop.addr.toNat

instance (p stop : Page) (n : NonZeroUsize) : Decidable (regionFits p stop n) :=
  inferInstanceAs (Decidable (_ ∧ _))

/-- The page `4096 * n` bytes past `p` (no wrap when `regionFits`). -/
def Page.add (p : Page) (n : NonZeroUsize) : Page := ⟨p.addr + n.get * 4096⟩

/-- What one call does: the region `[pos, pos + 4096 * n)` and the cursor moved there when it fits, otherwise the error
and the allocator unchanged. -/
theorem allocateRegion_eq (b : BumpAllocator) (n : NonZeroUsize) :
    b.allocateRegion n =
      if regionFits b.pos b.full.stop n then (.ok ⟨b.pos, b.pos.add n⟩, { b with pos := b.pos.add n })
      else (.error .VirtualAddressSpaceExhausted, b) := by
  unfold BumpAllocator.allocateRegion regionFits Page.forwardChecked Page.add
  dsimp only
  rw [Step.forwardChecked_eq]
  by_cases h : b.pos.addr.toNat + n.get.toNat * 4096 < 2 ^ 64
  · have hs : (b.pos.addr + n.get * 4096).toNat = b.pos.addr.toNat + n.get.toNat * 4096 := by bv_omega
    simp only [if_pos h, Option.map_some', BitVec.lt_def, hs, true_and]
    split <;> split <;> first | rfl | omega
  · rw [if_neg h, Option.map_none', if_neg (fun h' => h h'.1)]

/-- The end of a region that fits, as a number. -/
theorem Page.add_toNat {p stop : Page} {n : NonZeroUsize} (h : regionFits p stop n) :
    (p.add n).addr.toNat = p.addr.toNat + n.get.toNat * 4096 := by
  unfold Page.add
  have := h.1
  bv_omega

/-- A region that fits has at least one page: its end is past its start. -/
theorem Page.lt_add {p stop : Page} {n : NonZeroUsize} (h : regionFits p stop n) :
    p.addr.toNat < (p.add n).addr.toNat := by
  rw [Page.add_toNat h]
  have : n.get.toNat ≠ 0 := fun h0 => n.ne_zero (BitVec.eq_of_toNat_eq (by simpa using h0))
  omega

/-! ## Runs of requests -/

/-- The results of a sequence of `allocate_region` calls, in order, and the allocator after them. -/
def runRegions : BumpAllocator → List NonZeroUsize → List (Except VirtAllocError PageRange) × BumpAllocator
  | b, [] => ([], b)
  | b, n :: ns =>
    let (r, b') := b.allocateRegion n
    let (rs, b'') := runRegions b' ns
    (r :: rs, b'')

/-- A call keeps the window. -/
theorem allocateRegion_full (b : BumpAllocator) (n : NonZeroUsize) : (b.allocateRegion n).2.full = b.full := by
  rw [allocateRegion_eq]
  split <;> rfl

/-- A call never moves the cursor back, and never past the window's end when it started at most there. -/
theorem allocateRegion_pos (b : BumpAllocator) (n : NonZeroUsize) (h : b.pos.addr.toNat ≤ b.full.stop.addr.toNat) :
    b.pos.addr.toNat ≤ (b.allocateRegion n).2.pos.addr.toNat ∧
      (b.allocateRegion n).2.pos.addr.toNat ≤ b.full.stop.addr.toNat := by
  rw [allocateRegion_eq]
  split
  · rename_i hf
    have := Page.lt_add hf
    exact ⟨by simp only; omega, by simp only; rw [Page.add_toNat hf]; exact hf.2⟩
  · exact ⟨le_rfl, h⟩

/-- The regions of a run's `Ok` results, in order. -/
def okRegions (rs : List (Except VirtAllocError PageRange)) : List PageRange :=
  rs.filterMap fun r => match r with | .ok g => some g | .error _ => none

/-- `Consecutive p gs`: the regions `gs` follow each other from `p` on, each starting where the one before it ended. -/
def Consecutive : Page → List PageRange → Prop
  | _, [] => True
  | p, g :: gs => g.start = p ∧ Consecutive g.stop gs

/-- The end of a consecutive list of regions that starts at `p`. -/
def chainEnd : Page → List PageRange → Page
  | p, [] => p
  | _, g :: gs => chainEnd g.stop gs

/-- Over a run, the window is kept, and the regions handed out follow each other from the cursor before the run to the
cursor after it; each is nonempty and ends inside the window. -/
theorem runRegions_consecutive (b : BumpAllocator) (ns : List NonZeroUsize) :
    (runRegions b ns).2.full = b.full ∧
    Consecutive b.pos (okRegions (runRegions b ns).1) ∧
    chainEnd b.pos (okRegions (runRegions b ns).1) = (runRegions b ns).2.pos ∧
    (∀ g ∈ okRegions (runRegions b ns).1, g.start.addr.toNat < g.stop.addr.toNat ∧
      g.stop.addr.toNat ≤ b.full.stop.addr.toNat) := by
  induction ns generalizing b with
  | nil => exact ⟨rfl, trivial, rfl, by simp [runRegions, okRegions]⟩
  | cons n ns ih =>
    simp only [runRegions]
    rw [allocateRegion_eq]
    split
    · rename_i hf
      obtain ⟨hfull, hcons, hend, hin⟩ := ih { b with pos := b.pos.add n }
      simp only [okRegions, List.filterMap_cons] at hcons hend hin ⊢
      refine ⟨hfull, ⟨rfl, hcons⟩, hend, ?_⟩
      intro g hg
      rcases List.mem_cons.1 hg with rfl | hg
      · exact ⟨Page.lt_add hf, by rw [Page.add_toNat hf]; exact hf.2⟩
      · exact hin g hg
    · obtain ⟨hfull, hcons, hend, hin⟩ := ih b
      simp only [okRegions, List.filterMap_cons] at hcons hend hin ⊢
      exact ⟨hfull, hcons, hend, hin⟩

/-- Consecutive nonempty regions are in increasing order and pairwise disjoint, and all start at or after `p`. -/
theorem Consecutive.pairwise {p : Page} {gs : List PageRange} (h : Consecutive p gs)
    (hne : ∀ g ∈ gs, g.start.addr.toNat < g.stop.addr.toNat) :
    (∀ g ∈ gs, p.addr.toNat ≤ g.start.addr.toNat) ∧
      gs.Pairwise (fun g g' => g.stop.addr.toNat ≤ g'.start.addr.toNat) := by
  induction gs generalizing p with
  | nil => simp
  | cons g gs ih =>
    obtain ⟨rfl, h⟩ := h
    obtain ⟨hle, hpw⟩ := ih h (fun g' hg' => hne g' (List.mem_cons_of_mem _ hg'))
    have hg := hne g (List.mem_cons_self _ _)
    refine ⟨?_, List.pairwise_cons.2 ⟨hle, hpw⟩⟩
    intro g' hg'
    rcases List.mem_cons.1 hg' with rfl | hg'
    · exact le_rfl
    · have := hle g' hg'; omega

/-- A consecutive list of nonempty regions from `p` ends at or after `p`. -/
theorem Consecutive.le_chainEnd {p : Page} {gs : List PageRange} (h : Consecutive p gs)
    (hne : ∀ g ∈ gs, g.start.addr.toNat < g.stop.addr.toNat) : p.addr.toNat ≤ (chainEnd p gs).addr.toNat := by
  induction gs generalizing p with
  | nil => exact le_rfl
  | cons g gs ih =>
    obtain ⟨rfl, h⟩ := h
    have hg := hne g (List.mem_cons_self _ _)
    have := ih h (fun g' hg' => hne g' (List.mem_cons_of_mem _ hg'))
    exact (Nat.le_of_lt hg).trans this

/-- Consecutive nonempty regions from `p` cover exactly the addresses from `p` to their end. -/
theorem Consecutive.cover {p : Page} {gs : List PageRange} (h : Consecutive p gs)
    (hne : ∀ g ∈ gs, g.start.addr.toNat < g.stop.addr.toNat) (a : Nat) :
    (∃ g ∈ gs, g.start.addr.toNat ≤ a ∧ a < g.stop.addr.toNat) ↔
      p.addr.toNat ≤ a ∧ a < (chainEnd p gs).addr.toNat := by
  induction gs generalizing p with
  | nil => simp only [List.not_mem_nil, false_and, exists_false, chainEnd, false_iff, not_and, not_lt]; omega
  | cons g gs ih =>
    obtain ⟨rfl, h⟩ := h
    have hne' : ∀ g' ∈ gs, g'.start.addr.toNat < g'.stop.addr.toNat := fun g' hg' => hne g' (List.mem_cons_of_mem _ hg')
    have hg := hne g (List.mem_cons_self _ _)
    have hend := Consecutive.le_chainEnd h hne'
    simp only [List.mem_cons, exists_eq_or_imp, chainEnd]
    rw [ih h hne']
    omega

/-- Over a run the cursor never moves back, and stays at most the window's end when it started there. -/
theorem runRegions_pos (b : BumpAllocator) (ns : List NonZeroUsize) (h : b.pos.addr.toNat ≤ b.full.stop.addr.toNat) :
    b.pos.addr.toNat ≤ (runRegions b ns).2.pos.addr.toNat ∧
      (runRegions b ns).2.pos.addr.toNat ≤ b.full.stop.addr.toNat := by
  induction ns generalizing b with
  | nil => exact ⟨le_rfl, h⟩
  | cons n ns ih =>
    obtain ⟨h1, h2⟩ := allocateRegion_pos b n h
    have hfull := allocateRegion_full b n
    obtain ⟨h3, h4⟩ := ih (b.allocateRegion n).2 (hfull ▸ h2)
    rw [hfull] at h4
    exact ⟨h1.trans h3, h4⟩

/-- Each request of a run that succeeded got a region of exactly the size it asked for. -/
theorem runRegions_ok_size (b : BumpAllocator) (ns : List NonZeroUsize) :
    ∀ n g, (n, Except.ok g) ∈ ns.zip (runRegions b ns).1 →
      g.stop.addr.toNat = g.start.addr.toNat + n.get.toNat * 4096 := by
  induction ns generalizing b with
  | nil => simp [runRegions]
  | cons n ns ih =>
    intro n' g hmem
    simp only [runRegions, List.zip_cons_cons, List.mem_cons] at hmem
    rcases hmem with heq | hmem
    · rw [allocateRegion_eq] at heq
      split at heq
      · rename_i hf
        simp only [Prod.mk.injEq, Except.ok.injEq] at heq
        obtain ⟨rfl, rfl⟩ := heq
        exact Page.add_toNat hf
      · simp at heq
    · exact ih _ n' g hmem

/-- Each call of `allocate_region` returns `pos .. pos + 4096 * n` and moves the cursor there exactly when that end is
a `usize` within the window, and otherwise fails with the cursor unchanged. Over any run from a fresh allocator the
cursor stays in the window, and the regions handed out are nonempty, increasing, pairwise disjoint, of the sizes asked,
and together cover the window's start to the cursor. -/
theorem bumpAllocator_run_law (full : PageRange) (hse : full.start.addr.toNat ≤ full.stop.addr.toNat)
    (ns : List NonZeroUsize) :
    (∀ (b : BumpAllocator) (n : NonZeroUsize), b.allocateRegion n =
      if regionFits b.pos b.full.stop n then (.ok ⟨b.pos, b.pos.add n⟩, { b with pos := b.pos.add n })
      else (.error .VirtualAddressSpaceExhausted, b)) ∧
    full.start.addr.toNat ≤ (runRegions (BumpAllocator.new full) ns).2.pos.addr.toNat ∧
    (runRegions (BumpAllocator.new full) ns).2.pos.addr.toNat ≤ full.stop.addr.toNat ∧
    (∀ g ∈ okRegions (runRegions (BumpAllocator.new full) ns).1, g.start.addr.toNat < g.stop.addr.toNat) ∧
    (okRegions (runRegions (BumpAllocator.new full) ns).1).Pairwise
      (fun g g' => g.stop.addr.toNat ≤ g'.start.addr.toNat) ∧
    (∀ n g, (n, Except.ok g) ∈ ns.zip (runRegions (BumpAllocator.new full) ns).1 →
      g.stop.addr.toNat = g.start.addr.toNat + n.get.toNat * 4096 ∧ g.len = n.get.toNat) ∧
    (∀ a : Nat, (∃ g ∈ okRegions (runRegions (BumpAllocator.new full) ns).1,
        g.start.addr.toNat ≤ a ∧ a < g.stop.addr.toNat) ↔
      full.start.addr.toNat ≤ a ∧ a < (runRegions (BumpAllocator.new full) ns).2.pos.addr.toNat) := by
  obtain ⟨-, hcons, hend, hin⟩ := runRegions_consecutive (BumpAllocator.new full) ns
  have hne g hg := (hin g hg).1
  obtain ⟨hpos, hstop⟩ := runRegions_pos (BumpAllocator.new full) ns hse
  refine ⟨allocateRegion_eq, hpos, hstop, hne, (Consecutive.pairwise hcons hne).2, ?_, ?_⟩
  · intro n g hg
    have hsz := runRegions_ok_size _ ns n g hg
    refine ⟨hsz, ?_⟩
    simp only [PageRange.len, rangeLen, hsz]
    omega
  · intro a
    rw [Consecutive.cover hcons hne, hend]
    rfl

/-- Two one-page requests over a two-page window. -/
theorem bumpAllocator_run_law_two_pages :
    (⟨0⟩ : Page).addr.toNat ≤ (⟨8192⟩ : Page).addr.toNat ∧
      (runRegions (BumpAllocator.new ⟨⟨0⟩, ⟨8192⟩⟩) [⟨1, by decide⟩, ⟨1, by decide⟩]).2.pos.addr.toNat ≤
        (⟨8192⟩ : Page).addr.toNat :=
  ⟨by decide, (bumpAllocator_run_law ⟨⟨0⟩, ⟨8192⟩⟩ (by decide) [⟨1, by decide⟩, ⟨1, by decide⟩]).2.2.1⟩

end Ithaca
