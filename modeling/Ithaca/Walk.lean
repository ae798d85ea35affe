import Ithaca.Mapper

/-!
# The hierarchy as a map from keys to frames

A walk reads one entry per level and follows it while it is present (`walkStep`, `descend`). A page's key is bits 12
to 47 of its address, and the hierarchy's translation of a key is the frame where its walk ends (`translateKey`); when
the direct map reaches every table (`WellFormed`), `get_entry` and `translate_page` compute these walks
(`translatePage_eq`). In a tree-shaped hierarchy entry `i` of the table at path `Q` is read only by the walks through
`Q ++ [i]`, so a write there changes only those walks (`descend_write`), and installing a zeroed frame below an absent
entry changes no translation (`descend_link`).
-/

namespace Ithaca

/-! ## Walks -/

/-- What entry `e` leads to: its frame, if it is present. -/
def PageTableEntry.target (e : PageTableEntry) : Option Frame := if e.bits.getLsbD 0 then some e.frame else none

/-- One level of a walk: entry `i` of the table in `t`, followed if it is present. -/
def walkStep (mem : PhysMem) (t : Frame) (i : Nat) : Option Frame := (entryAt mem t i).target

/-- `new(flags, f)` with `PRESENT` in the flags is present, whatever `f`. -/
theorem PageTableEntry.new_present {fl : PageFlags} (f : Frame) (hfl : fl.bits.getLsbD 0 = true) :
    (PageTableEntry.new fl f).bits.getLsbD 0 = true := by
  simp [PageTableEntry.new, hfl]

/-- `new(flags, f)` with `PRESENT` in the flags leads to its own `frame()`. -/
theorem PageTableEntry.target_new_frame {fl : PageFlags} (f : Frame) (hfl : fl.bits.getLsbD 0 = true) :
    (PageTableEntry.new fl f).target = some (PageTableEntry.new fl f).frame := by
  rw [target, if_pos (new_present f hfl)]

/-- `new(flags, f)` with `PRESENT` in the flags leads to an aligned `f`. -/
theorem PageTableEntry.target_new {fl : PageFlags} {f : Frame} (hfl : fl.bits.getLsbD 0 = true) (hf : f.Aligned) :
    (PageTableEntry.new fl f).target = some f := by
  rw [target_new_frame f hfl, frame_new_of_aligned fl hf]

/-- `new(PageFlags::empty(), f)` for an aligned `f` is absent. -/
theorem PageTableEntry.target_new_empty {f : Frame} (hf : f.Aligned) :
    (PageTableEntry.new .empty f).target = none := by
  rw [target, if_neg (by rw [(new_present_huge_of_aligned _ hf).1]; decide)]

theorem walkStep_eq_none_iff {mem : PhysMem} {t : Frame} {i : Nat} :
    walkStep mem t i = none ↔ (mem (slotAddr t i)).getLsbD 0 = false := by
  simp [walkStep, PageTableEntry.target, entryAt]

theorem walkStep_eq_some_iff {mem : PhysMem} {t u : Frame} {i : Nat} :
    walkStep mem t i = some u ↔ (mem (slotAddr t i)).getLsbD 0 = true ∧ (entryAt mem t i).frame = u := by
  simp [walkStep, PageTableEntry.target, entryAt]

/-- The frame reached from the table in `t` through the entries at the indices `is`, following every present entry. -/
def descend (mem : PhysMem) : Frame → List Nat → Option Frame
  | t, [] => some t
  | t, i :: is => (walkStep mem t i).bind fun u => descend mem u is

theorem descend_append (mem : PhysMem) (t : Frame) (is js : List Nat) :
    descend mem t (is ++ js) = (descend mem t is).bind fun u => descend mem u js := by
  induction is generalizing t with
  | nil => rfl
  | cons i is ih => simp only [List.cons_append, descend, List.append_eq, ih, Option.bind_assoc]

theorem descend_concat (mem : PhysMem) (t : Frame) (is : List Nat) (i : Nat) :
    descend mem t (is ++ [i]) = (descend mem t is).bind fun u => walkStep mem u i := by
  simp [descend_append, descend]

/-- A walk reads, at each step, the entry at the step's index of the table reached so far: memories that agree on
those entries agree on the walk. -/
theorem descend_congr {mem mem' : PhysMem} {t : Frame} {R : List Nat}
    (h : ∀ R' j u, R' ++ [j] <+: R → descend mem t R' = some u → mem' (slotAddr u j) = mem (slotAddr u j)) :
    descend mem' t R = descend mem t R := by
  induction R using List.reverseRecOn with
  | nil => rfl
  | append_singleton R j ih =>
    rw [descend_concat, descend_concat, ih fun R' j' u hp => h R' j' u (hp.trans (List.prefix_append _ _))]
    cases hR : descend mem t R with
    | none => rfl
    | some u => simp only [Option.some_bind, walkStep, entryAt, h R j u (List.prefix_refl _) hR]

/-- Every frame a walk reaches from a page-aligned table is page-aligned: `frame()` keeps bits 12 to 62 only. -/
theorem descend_aligned {mem : PhysMem} {t u : Frame} {R : List Nat} (ht : t.addr.toNat % 4096 = 0)
    (h : descend mem t R = some u) : u.addr.toNat % 4096 = 0 := by
  induction R generalizing t with
  | nil => exact Option.some.inj h ▸ ht
  | cons i R ih =>
    obtain ⟨v, hv, h⟩ := Option.bind_eq_some.1 h
    refine ih ?_ h
    simp only [walkStep, PageTableEntry.target] at hv
    split at hv
    · exact Option.some.inj hv ▸ (PageTableEntry.frame_aligned _).1
    · cases hv

/-! ## Entries of page-aligned tables -/

/-- Entries of page-aligned tables have distinct addresses: the address names the table and the index. -/
theorem slotAddr_inj {t u : Frame} {i j : Nat} (ht : t.addr.toNat % 4096 = 0) (hu : u.addr.toNat % 4096 = 0)
    (hi : i < 512) (hj : j < 512) (h : slotAddr t i = slotAddr u j) : t = u ∧ i = j := by
  unfold slotAddr at h
  refine ⟨?_, by omega⟩
  cases t; cases u
  congr 1
  apply BitVec.eq_of_toNat_eq
  simp only at *
  omega

/-- An entry of a page-aligned table lies in no other page-aligned frame. -/
theorem slotAddr_not_inRegion {t f : Frame} {i : Nat} (ht : t.addr.toNat % 4096 = 0)
    (hf : f.addr.toNat % 4096 = 0) (hi : i < 512) (hne : t ≠ f) : ¬ f.InRegion (slotAddr t i) := by
  rintro ⟨h1, h2⟩
  apply hne
  cases t; cases f
  congr 1
  apply BitVec.eq_of_toNat_eq
  unfold slotAddr at h1 h2
  simp only at *
  omega

/-- Entry `i < 512` of a table lies in the table's frame. -/
theorem slotAddr_inRegion (t : Frame) {i : Nat} (hi : i < 512) : t.InRegion (slotAddr t i) := by
  unfold Frame.InRegion slotAddr
  omega

/-! ## Tables and keys -/

/-- A path of table indices, each below 512 (every index of the code is masked with `0x1ff`). -/
def ValidPath (is : List Nat) : Prop := ∀ i ∈ is, i < 512

instance (is : List Nat) : Decidable (ValidPath is) := inferInstanceAs (Decidable (∀ i ∈ is, i < 512))

/-- The tables of the hierarchy rooted at `root`: the frames that a walk of at most three valid indices reaches. -/
def IsTable (mem : PhysMem) (root t : Frame) : Prop :=
  ∃ is, ValidPath is ∧ is.length ≤ 3 ∧ descend mem root is = some t

/-- Tree-shaped: no table is reached through two different paths. -/
def TreeShaped (mem : PhysMem) (root : Frame) : Prop :=
  ∀ is js t, ValidPath is → is.length ≤ 3 → ValidPath js → js.length ≤ 3 →
    descend mem root is = some t → descend mem root js = some t → is = js

/-- The step `R' ++ [j]` of a walk `R` of at most four valid indices starts from a table and reads an index below
512. -/
theorem ValidPath.of_prefix {R' R : List Nat} {j : Nat} (hp : R' ++ [j] <+: R) (hR : ValidPath R)
    (hl : R.length ≤ 4) : ValidPath R' ∧ R'.length ≤ 3 ∧ j < 512 := by
  have hlen := hp.length_le
  simp only [List.length_append, List.length_singleton] at hlen
  exact ⟨fun i hi => hR i (hp.subset (by simp [hi])), by omega, hR j (hp.subset (by simp))⟩

theorem ValidPath.append {R : List Nat} {j : Nat} (hR : ValidPath R) (hj : j < 512) : ValidPath (R ++ [j]) := by
  intro i hi
  rcases List.mem_append.1 hi with hi | hi
  · exact hR i hi
  · exact (List.mem_singleton.1 hi) ▸ hj

/-- A page's key: bits 12 to 47 of its address. -/
abbrev Key := Fin (2 ^ 36)

/-- The key of the page at `vaddr`. -/
def pageKey (vaddr : BitVec 64) : Key := ⟨vaddr.toNat / 4096 % 2 ^ 36, Nat.mod_lt _ (by norm_num)⟩

/-- The indices of key `k` into the tables of levels 4, 3 and 2. -/
def tablePath (k : Key) : List Nat := [k.val / 2 ^ 27 % 512, k.val / 2 ^ 18 % 512, k.val / 2 ^ 9 % 512]

/-- The four indices of key `k`: its table path, then its index into the level-1 table. -/
def keyPath (k : Key) : List Nat := tablePath k ++ [k.val % 512]

/-- The hierarchy's translation of key `k`: where the walk of its four indices ends. -/
def translateKey (mem : PhysMem) (root : Frame) (k : Key) : Option Frame := descend mem root (keyPath k)

@[simp] theorem tablePath_length (k : Key) : (tablePath k).length = 3 := rfl

@[simp] theorem keyPath_length (k : Key) : (keyPath k).length = 4 := rfl

theorem tablePath_valid (k : Key) : ValidPath (tablePath k) := by
  simp only [ValidPath, tablePath, List.mem_cons, List.mem_singleton, List.not_mem_nil, or_false]
  rintro i (rfl | rfl | rfl) <;> omega

theorem keyPath_valid (k : Key) : ValidPath (keyPath k) := (tablePath_valid k).append (Nat.mod_lt _ (by norm_num))

/-- Keys are their four indices. -/
theorem keyPath_inj {k k' : Key} (h : keyPath k = keyPath k') : k = k' := by
  simp only [keyPath, tablePath, List.cons_append, List.nil_append, List.cons.injEq] at h
  have := k.isLt
  have := k'.isLt
  exact Fin.ext (by omega)

/-- The code's indices are the key's: `vaddr.wrapping_shr(12 + 9 * level) & 0x1ff` is digit `level` of the key. -/
theorem tableIndex_eq (vaddr : BitVec 64) {level : Nat} (hl : level < 4) :
    tableIndex vaddr level = (pageKey vaddr).val / 2 ^ (9 * level) % 512 := by
  have h : (0x1ff#64).toNat = 2 ^ 9 - 1 := rfl
  rw [tableIndex, BitVec.toNat_and, BitVec.toNat_ushiftRight, Nat.shiftRight_eq_div_pow, h,
    Nat.and_pow_two_sub_one_eq_mod, Nat.mod_eq_of_lt (by omega : 12 + 9 * level < 64)]
  simp only [pageKey]
  interval_cases level <;> simp only [Nat.reducePow, Nat.reduceMul, Nat.reduceAdd] <;> omega

theorem levels_map_tableIndex (vaddr : BitVec 64) : levels.map (tableIndex vaddr) = tablePath (pageKey vaddr) := by
  simp only [levels, List.map_cons, List.map_nil, tablePath]
  rw [tableIndex_eq vaddr (by norm_num), tableIndex_eq vaddr (by norm_num), tableIndex_eq vaddr (by norm_num)]

theorem tableIndex_zero (vaddr : BitVec 64) : tableIndex vaddr 0 = (pageKey vaddr).val % 512 := by
  rw [tableIndex_eq vaddr (by norm_num)]
  simp

/-! ## The code's walks -/

/-- The hierarchy of `m` is tree-shaped and the direct map reaches each of its tables at a nonzero address. -/
structure WellFormed (mem : PhysMem) (m : PageMapper) : Prop where
  tree : TreeShaped mem m.l4
  covered : ∀ t, IsTable mem m.l4 t → Linkable m.hhdm.base t

theorem WellFormed.covers {mem : PhysMem} {m : PageMapper} (hw : WellFormed mem m) (t : Frame)
    (ht : IsTable mem m.l4 t) : m.hhdm.Covers t :=
  (hw.covered t ht).1

/-- The loop of `get_entry` is the walk, when the direct map reaches every frame it goes through. -/
theorem getEntryLoop_eq (m : PageMapper) (mem : PhysMem) (addr : BitVec 64) (ls : List Nat) (t : Frame)
    (hc : ∀ js u, js <+: ls.map (tableIndex addr) → descend mem t js = some u → m.hhdm.Covers u) :
    m.getEntryLoop mem addr ls t = .ok (descend mem t (ls.map (tableIndex addr))) := by
  induction ls generalizing t with
  | nil => rfl
  | cons l ls ih =>
    simp only [PageMapper.getEntryLoop, flags_contains_present, List.map_cons, descend, walkStep,
      PageTableEntry.target]
    cases hp : (entryAt mem t (tableIndex addr l)).bits.getLsbD 0
    · rfl
    · have hcov := hc [tableIndex addr l] (entryAt mem t (tableIndex addr l)).frame (by simp)
        (by simp [descend, walkStep, PageTableEntry.target, hp])
      simp only [Bool.not_true, if_true, Option.some_bind, Hhdm.toVirtual_of_covers hcov, except_ok_bind]
      exact ih _ fun js u hjs hu => hc (tableIndex addr l :: js) u (List.cons_prefix_cons.2 ⟨rfl, hjs⟩)
        (by simp [descend, walkStep, PageTableEntry.target, hp, hu])

/-- `get_entry` finds the slot of the key's level-1 entry when the walk of its table path reaches a table. -/
theorem getEntry_eq {mem : PhysMem} {m : PageMapper} (hc : ∀ t, IsTable mem m.l4 t → m.hhdm.Covers t)
    (addr : BitVec 64) :
    m.getEntry mem addr =
      .ok ((descend mem m.l4 (tablePath (pageKey addr))).map fun t => slotAddr t ((pageKey addr).val % 512)) := by
  have hloop := getEntryLoop_eq m mem addr levels m.l4 fun js u hjs hu => by
    rw [levels_map_tableIndex] at hjs
    have hl := hjs.length_le
    simp only [tablePath_length] at hl
    exact hc u ⟨js, fun i hi => tablePath_valid _ i (hjs.subset hi), hl, hu⟩
  rw [levels_map_tableIndex] at hloop
  simp only [PageMapper.getEntry, hloop, tableIndex_zero]
  cases descend mem m.l4 (tablePath (pageKey addr)) <;> rfl

/-- `translate_page` is the hierarchy's translation of the page's key, when the direct map reaches every table. -/
theorem translatePage_eq_of_covered {mem : PhysMem} {m : PageMapper}
    (hc : ∀ t, IsTable mem m.l4 t → m.hhdm.Covers t) (p : Page) :
    m.translatePage mem p = .ok (translateKey mem m.l4 (pageKey p.addr)) := by
  simp only [PageMapper.translatePage, getEntry_eq hc, translateKey, keyPath, descend_concat]
  cases descend mem m.l4 (tablePath (pageKey p.addr)) with
  | none => rfl
  | some t => simp [walkStep, entryAt, PageTableEntry.target]

/-- `translate_page` is the hierarchy's translation of the page's key. -/
theorem translatePage_eq {mem : PhysMem} {m : PageMapper} (hw : WellFormed mem m) (p : Page) :
    m.translatePage mem p = .ok (translateKey mem m.l4 (pageKey p.addr)) :=
  translatePage_eq_of_covered hw.covers p

/-! ## Writes -/

section Writes

variable {mem : PhysMem} {root : Frame} (hroot : root.addr.toNat % 4096 = 0)
include hroot

theorem IsTable.aligned {t : Frame} (h : IsTable mem root t) : t.addr.toNat % 4096 = 0 := by
  obtain ⟨_, _, _, h⟩ := h
  exact descend_aligned hroot h

omit hroot in
/-- In a tree-shaped hierarchy, a memory that keeps every entry of every table except entry `i` of the table at path
`Q` keeps every walk of at most four steps that does not go through that entry. -/
theorem descend_eq_of_agree (tree : TreeShaped mem root) {Q : List Nat} {U : Frame} {i : Nat} (hQ : ValidPath Q)
    (hQl : Q.length ≤ 3) (hU : descend mem root Q = some U) {mem' : PhysMem}
    (hagree : ∀ u j, IsTable mem root u → j < 512 → (u = U → j ≠ i) → mem' (slotAddr u j) = mem (slotAddr u j))
    {R : List Nat} (hR : ValidPath R) (hl : R.length ≤ 4) (hnp : ¬ Q ++ [i] <+: R) :
    descend mem' root R = descend mem root R := by
  apply descend_congr
  intro R' j u hp hu
  obtain ⟨hR', hl', hj⟩ := ValidPath.of_prefix hp hR hl
  apply hagree u j ⟨R', hR', hl', hu⟩ hj
  rintro rfl rfl
  exact hnp (tree R' Q u hR' hl' hQ hQl hu hU ▸ hp)

/-- Distinct entries of tables have distinct addresses. -/
theorem slotAddr_ne {U u : Frame} {i j : Nat} (hUt : IsTable mem root U) (hu : IsTable mem root u) (hi : i < 512)
    (hj : j < 512) (hne : u = U → j ≠ i) : slotAddr u j ≠ slotAddr U i := fun h => by
  obtain ⟨rfl, rfl⟩ := slotAddr_inj (hu.aligned hroot) (hUt.aligned hroot) hj hi h
  exact hne rfl rfl

/-- A write to entry `i` of a table keeps every other entry of every table. -/
theorem write_agree {U : Frame} (hUt : IsTable mem root U) {i : Nat} (hi : i < 512) (v : BitVec 64) (u : Frame)
    (j : Nat) (hu : IsTable mem root u) (hj : j < 512) (hne : u = U → j ≠ i) :
    mem.write (slotAddr U i) v (slotAddr u j) = mem (slotAddr u j) := by
  rw [write_apply, if_neg (slotAddr_ne hroot hUt hu hi hj hne)]

/-- A write to entry `i` of the table at a path `Q` of three indices (a level-1 table) changes only the walk of
`Q ++ [i]`, which now ends where the written word leads. -/
theorem descend_write (tree : TreeShaped mem root) {Q : List Nat} {U : Frame} {i : Nat} (hQ : ValidPath Q)
    (hQl : Q.length = 3) (hU : descend mem root Q = some U) (hi : i < 512) (v : BitVec 64) {R : List Nat}
    (hR : ValidPath R) (hl : R.length ≤ 4) :
    descend (mem.write (slotAddr U i) v) root R =
      if R = Q ++ [i] then (PageTableEntry.mk v).target else descend mem root R := by
  have hUt : IsTable mem root U := ⟨Q, hQ, hQl.le, hU⟩
  have hagree := write_agree hroot hUt hi v
  split
  · subst R
    have hnp : ¬ Q ++ [i] <+: Q := fun h => by simpa using h.length_le
    rw [descend_concat, descend_eq_of_agree tree hQ hQl.le hU hagree hQ (by omega) hnp, hU]
    simp [walkStep, entryAt]
  · rename_i hne
    refine descend_eq_of_agree tree hQ hQl.le hU hagree hR hl fun hp => hne ?_
    have hlen := hp.length_le
    simp only [List.length_append, List.length_singleton, hQl] at hlen
    exact (hp.eq_of_length (by simp only [List.length_append, List.length_singleton, hQl]; omega)).symm

/-- `map_page`'s install of the table `f` below entry `i` of the table in `t`: `f` is zeroed
(`ptr::write(page_table_ptr, PageTable::empty())`), then the entry becomes `PageTableEntry::new(PRESENT | WRITABLE |
USER, f)`. -/
def linkTable (mem : PhysMem) (t : Frame) (i : Nat) (f : Frame) : PhysMem :=
  (mem.zeroFrame f).write (slotAddr t i) (PageTableEntry.new tableFlags f).bits

/-- Installing `f` keeps every entry of every table other than `f`, except the entry it writes. -/
theorem linkTable_agree {U f u : Frame} {i j : Nat} (hUt : IsTable mem root U) (hi : i < 512)
    (hf : f.addr.toNat % 4096 = 0) (hu : IsTable mem root u) (huf : u ≠ f) (hj : j < 512) (hne : u = U → j ≠ i) :
    linkTable mem U i f (slotAddr u j) = mem (slotAddr u j) := by
  rw [linkTable, write_apply, if_neg (slotAddr_ne hroot hUt hu hi hj hne), zeroFrame_apply,
    if_neg (slotAddr_not_inRegion (hu.aligned hroot) hf hj huf)]

/-- The installed table is empty. -/
theorem linkTable_fresh {U f : Frame} {i j : Nat} (hUt : IsTable mem root U) (hi : i < 512)
    (hf : f.addr.toNat % 4096 = 0) (hUf : U ≠ f) (hj : j < 512) : linkTable mem U i f (slotAddr f j) = 0 := by
  rw [linkTable, write_apply, if_neg fun h => hUf (slotAddr_inj hf (hUt.aligned hroot) hj hi h).1.symm,
    zeroFrame_apply, if_pos (slotAddr_inRegion f hj)]

omit hroot in
@[simp] theorem linkTable_self (U f : Frame) (i : Nat) :
    linkTable mem U i f (slotAddr U i) = (PageTableEntry.new tableFlags f).bits := by
  simp [linkTable]

/-- `map_page`'s install of a new table: linking the zeroed, page-aligned frame `f`, which is not a table, below the
absent entry `i` of the table at a path `Q` of at most two indices adds `f` at `Q ++ [i]` and changes no other walk of
at most four steps. -/
theorem descend_link (tree : TreeShaped mem root) {Q : List Nat} {U : Frame} {i : Nat} (hQ : ValidPath Q)
    (hQl : Q.length ≤ 2) (hU : descend mem root Q = some U) (hi : i < 512) (habs : walkStep mem U i = none)
    {f : Frame} (hf : f.Aligned) (hnt : ¬ IsTable mem root f) {R : List Nat} (hR : ValidPath R) (hl : R.length ≤ 4) :
    descend (linkTable mem U i f) root R = if R = Q ++ [i] then some f else descend mem root R := by
  have hUt : IsTable mem root U := ⟨Q, hQ, by omega, hU⟩
  have hUf : U ≠ f := fun h => hnt (h ▸ hUt)
  have hagree : ∀ u j, IsTable mem root u → j < 512 → (u = U → j ≠ i) →
      linkTable mem U i f (slotAddr u j) = mem (slotAddr u j) := fun u j hu hj hne =>
    linkTable_agree hroot hUt hi hf.1 hu (fun h => hnt (h ▸ hu)) hj hne
  have hQ' : descend (linkTable mem U i f) root Q = some U :=
    (descend_eq_of_agree tree hQ (by omega) hU hagree hQ (by omega) fun h => by simpa using h.length_le).trans hU
  have hself : descend (linkTable mem U i f) root (Q ++ [i]) = some f := by
    rw [descend_concat, hQ', Option.some_bind, walkStep, entryAt, linkTable_self]
    exact PageTableEntry.target_new rfl hf
  by_cases hp : Q ++ [i] <+: R
  · obtain ⟨S, rfl⟩ := hp
    cases S with
    | nil => simp [hself]
    | cons j S =>
      have hstep : walkStep (linkTable mem U i f) f j = none :=
        walkStep_eq_none_iff.2 (by rw [linkTable_fresh hroot hUt hi hf.1 hUf (hR j (by simp))]; rfl)
      rw [if_neg (by simp), descend_append _ _ (Q ++ [i]), descend_append mem _ (Q ++ [i]), hself,
        descend_concat mem, hU, Option.some_bind, Option.some_bind, habs, Option.none_bind]
      simp only [descend, hstep, Option.none_bind]
  · rw [if_neg (by rintro rfl; exact hp (List.prefix_refl _))]
    exact descend_eq_of_agree tree hQ (by omega) hU hagree hR hl hp

end Writes

end Ithaca
