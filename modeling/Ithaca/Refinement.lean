import Ithaca.Walk

/-!
# The mapper refines a partial map from keys to frames

Over a well-formed hierarchy (tree-shaped, every table reached by the direct map), `translate_page` is the partial map
`translateKey` from keys to frames; `map_page` adds its key, reports it present, or runs out of frames with the map
unchanged, and `unmap_page` removes its key (`mapPage_spec`, `unmapPage_spec`). `map_page` is generic over its
allocator, which may keep its state in physical memory, so the loop's specification carries an invariant `J` that the
caller chooses (`AllocSpec`). The allocator's frames must be page-aligned: `map_page` walks into `frame()` of the entry
it wrote, the frame rounded down, so an unaligned frame makes it report a page mapped that is not
(`mapPage_unaligned_reports_mapped`).
-/

namespace Ithaca

/-! ## Installs and level-1 writes keep the hierarchy well formed -/

/-- Where `map_page` may install `f`: below the absent entry `i` of the table `U` at a path `Q` of at most two
indices, `f` page-aligned and not a table. -/
structure LinkSite (mem : PhysMem) (root : Frame) (Q : List Nat) (U : Frame) (i : Nat) (f : Frame) : Prop where
  path : ValidPath Q
  short : Q.length ≤ 2
  table : descend mem root Q = some U
  index : i < 512
  absent : walkStep mem U i = none
  aligned : f.Aligned
  fresh : ¬ IsTable mem root f

section Link

variable {mem : PhysMem} {m : PageMapper} {Q : List Nat} {U f : Frame} {i : Nat}

theorem LinkSite.descend_eq (h : LinkSite mem m.l4 Q U i f) (tree : TreeShaped mem m.l4) {R : List Nat}
    (hR : ValidPath R) (hl : R.length ≤ 4) :
    descend (linkTable mem U i f) m.l4 R = if R = Q ++ [i] then some f else descend mem m.l4 R :=
  descend_link m.l4_aligned tree h.path h.short h.table h.index h.absent h.aligned h.fresh hR hl

theorem LinkSite.length_le (h : LinkSite mem m.l4 Q U i f) : (Q ++ [i]).length ≤ 3 := by
  have := h.short
  simp only [List.length_append, List.length_singleton]
  omega

theorem LinkSite.valid (h : LinkSite mem m.l4 Q U i f) : ValidPath (Q ++ [i]) := h.path.append h.index

/-- The tables after an install are the tables before it and the installed frame. -/
theorem isTable_linkTable (h : LinkSite mem m.l4 Q U i f) (tree : TreeShaped mem m.l4) {t : Frame} :
    IsTable (linkTable mem U i f) m.l4 t ↔ IsTable mem m.l4 t ∨ t = f := by
  constructor
  · rintro ⟨R, hR, hl, hd⟩
    rw [h.descend_eq tree hR (by omega)] at hd
    split at hd
    · exact .inr (Option.some.inj hd).symm
    · exact .inl ⟨R, hR, hl, hd⟩
  · rintro (⟨R, hR, hl, hd⟩ | rfl)
    · refine ⟨R, hR, hl, ?_⟩
      rw [h.descend_eq tree hR (by omega), if_neg]
      · exact hd
      · rintro rfl
        rw [descend_concat, h.table, Option.some_bind, h.absent] at hd
        cases hd
    · exact ⟨Q ++ [i], h.valid, h.length_le, by rw [h.descend_eq tree h.valid (by have := h.length_le; omega),
        if_pos rfl]⟩

/-- An install keeps the hierarchy tree-shaped. -/
theorem treeShaped_linkTable (h : LinkSite mem m.l4 Q U i f) (tree : TreeShaped mem m.l4) :
    TreeShaped (linkTable mem U i f) m.l4 := by
  intro is js t his hil hjs hjl hi hj
  rw [h.descend_eq tree his (by omega)] at hi
  rw [h.descend_eq tree hjs (by omega)] at hj
  split at hi <;> split at hj
  · simp_all
  · exact absurd ⟨js, hjs, hjl, (Option.some.inj hi).symm ▸ hj⟩ h.fresh
  · exact absurd ⟨is, his, hil, (Option.some.inj hj).symm ▸ hi⟩ h.fresh
  · exact tree is js t his hil hjs hjl hi hj

/-- An install changes no translation. -/
theorem translateKey_linkTable (h : LinkSite mem m.l4 Q U i f) (tree : TreeShaped mem m.l4) (k : Key) :
    translateKey (linkTable mem U i f) m.l4 k = translateKey mem m.l4 k := by
  rw [translateKey, h.descend_eq tree (keyPath_valid k) (by simp), if_neg]
  · rfl
  · intro he
    have h1 := congrArg List.length he
    have := h.length_le
    simp only [keyPath_length] at h1
    omega

/-- An install of a frame the direct map reaches keeps the hierarchy well formed. -/
theorem wellFormed_linkTable (h : LinkSite mem m.l4 Q U i f) (hw : WellFormed mem m) (hc : Linkable m.hhdm.base f) :
    WellFormed (linkTable mem U i f) m where
  tree := treeShaped_linkTable h hw.tree
  covered t ht := ((isTable_linkTable h hw.tree).1 ht).elim (hw.covered t) fun e => e ▸ hc

end Link

section Leaf

variable {mem : PhysMem} {m : PageMapper} {k : Key} {T : Frame}

/-- A write to the level-1 entry of key `k` changes only the walk of `k`. -/
theorem descend_write_leaf (tree : TreeShaped mem m.l4) (hT : descend mem m.l4 (tablePath k) = some T)
    (v : BitVec 64) {R : List Nat} (hR : ValidPath R) (hl : R.length ≤ 4) :
    descend (mem.write (slotAddr T (k.val % 512)) v) m.l4 R =
      if R = keyPath k then (PageTableEntry.mk v).target else descend mem m.l4 R :=
  descend_write m.l4_aligned tree (tablePath_valid k) (tablePath_length k) hT (Nat.mod_lt _ (by norm_num)) v hR hl

/-- A level-1 write keeps the tables. -/
theorem isTable_write_leaf (tree : TreeShaped mem m.l4) (hT : descend mem m.l4 (tablePath k) = some T)
    (v : BitVec 64) {t : Frame} : IsTable (mem.write (slotAddr T (k.val % 512)) v) m.l4 t ↔ IsTable mem m.l4 t := by
  have heq : ∀ R, ValidPath R → R.length ≤ 3 →
      descend (mem.write (slotAddr T (k.val % 512)) v) m.l4 R = descend mem m.l4 R := fun R hR hl => by
    rw [descend_write_leaf tree hT v hR (by omega), if_neg (by rintro rfl; simp at hl)]
  exact ⟨fun ⟨R, hR, hl, hd⟩ => ⟨R, hR, hl, heq R hR hl ▸ hd⟩, fun ⟨R, hR, hl, hd⟩ => ⟨R, hR, hl, heq R hR hl ▸ hd⟩⟩

/-- A write to the level-1 entry of key `k` sets the translation of `k` to where the word leads, and keeps every other
translation. -/
theorem translateKey_write_leaf (tree : TreeShaped mem m.l4) (hT : descend mem m.l4 (tablePath k) = some T)
    (v : BitVec 64) (k' : Key) :
    translateKey (mem.write (slotAddr T (k.val % 512)) v) m.l4 k' =
      if k' = k then (PageTableEntry.mk v).target else translateKey mem m.l4 k' := by
  rw [translateKey, descend_write_leaf tree hT v (keyPath_valid k') (by simp)]
  by_cases hk : k' = k
  · simp [hk]
  · rw [if_neg fun h => hk (keyPath_inj h), if_neg hk, translateKey]

/-- A level-1 write keeps the hierarchy well formed. -/
theorem wellFormed_write_leaf (hw : WellFormed mem m) (hT : descend mem m.l4 (tablePath k) = some T)
    (v : BitVec 64) : WellFormed (mem.write (slotAddr T (k.val % 512)) v) m where
  tree is js t his hil hjs hjl hi hj := by
    rw [descend_write_leaf hw.tree hT v his (by omega), if_neg (by rintro rfl; simp at hil)] at hi
    rw [descend_write_leaf hw.tree hT v hjs (by omega), if_neg (by rintro rfl; simp at hjl)] at hj
    exact hw.tree is js t his hil hjs hjl hi hj
  covered t ht := hw.covered t ((isTable_write_leaf hw.tree hT v).1 ht)

end Leaf

/-! ## Huge pages on a walk -/

/-- No present entry with the huge-page bit lies on the walk of key `k` above level 1 (`map_page` stops there with
`todo!`). -/
def NoHugeOnWalk (mem : PhysMem) (root : Frame) (k : Key) : Prop :=
  ∀ R j u, R ++ [j] <+: tablePath k → descend mem root R = some u →
    (mem (slotAddr u j)).getLsbD 0 = true → (mem (slotAddr u j)).getLsbD 7 = false

/-- An install keeps the walks free of huge pages: the new entry has no huge-page bit, the new table no present
entry. -/
theorem noHugeOnWalk_linkTable {mem : PhysMem} {m : PageMapper} {Q : List Nat} {U f : Frame} {i : Nat} {k : Key}
    (h : LinkSite mem m.l4 Q U i f) (tree : TreeShaped mem m.l4) (hn : NoHugeOnWalk mem m.l4 k) :
    NoHugeOnWalk (linkTable mem U i f) m.l4 k := by
  intro R j u hp hu hpres
  obtain ⟨hR, hl, hj⟩ := ValidPath.of_prefix (hp.trans (List.prefix_append _ [k.val % 512])) (keyPath_valid k)
    (by simp)
  have hUt : IsTable mem m.l4 U := ⟨Q, h.path, by have := h.short; omega, h.table⟩
  rw [h.descend_eq tree hR (by omega)] at hu
  split at hu
  · cases hu
    rw [linkTable_fresh m.l4_aligned hUt h.index h.aligned.1 (fun e => h.fresh (e ▸ hUt)) hj] at hpres
    cases hpres
  · have hut : IsTable mem m.l4 u := ⟨R, hR, hl, hu⟩
    by_cases hui : u = U ∧ j = i
    · obtain ⟨rfl, rfl⟩ := hui
      rw [linkTable_self, (new_present_huge_of_aligned tableFlags h.aligned).2]
      rfl
    · rw [linkTable_agree m.l4_aligned hUt h.index h.aligned.1 hut (fun e => h.fresh (e ▸ hut)) hj
        fun hu hj => hui ⟨hu, hj⟩] at hpres ⊢
      exact hn R j u hp hu hpres

/-! ## Present entries -/

/-- Every present entry of every table of `mem` reads the same in `mem'`. -/
def KeepsPresent (root : Frame) (mem mem' : PhysMem) : Prop :=
  ∀ u j, IsTable mem root u → j < 512 → (mem (slotAddr u j)).getLsbD 0 = true →
    mem' (slotAddr u j) = mem (slotAddr u j)

/-- `mem'` reads every entry of every table of `mem` as `mem` does: it differs only outside the hierarchy. -/
def AgreesOnTables (root : Frame) (mem mem' : PhysMem) : Prop :=
  ∀ u j, IsTable mem root u → j < 512 → mem' (slotAddr u j) = mem (slotAddr u j)

/-- The level-1 entry of key `k`, when the walk reaches its level-1 table. -/
def leafEntry (mem : PhysMem) (root : Frame) (k : Key) : Option PageTableEntry :=
  (descend mem root (tablePath k)).map fun T => entryAt mem T (k.val % 512)

/-- A key's translation is the target of its level-1 entry. -/
theorem translateKey_eq_leafEntry (mem : PhysMem) (root : Frame) (k : Key) :
    translateKey mem root k = (leafEntry mem root k).bind PageTableEntry.target := by
  rw [translateKey, keyPath, descend_concat, leafEntry]
  cases descend mem root (tablePath k) <;> rfl

section Present

variable {mem mem' mem'' : PhysMem} {root : Frame}

/-- A prefix of a walk that ends ends too. -/
theorem descend_prefix_isSome {R R' : List Nat} {u : Frame} (hp : R' <+: R) (hd : descend mem root R = some u) :
    (descend mem root R').isSome := by
  obtain ⟨rest, rfl⟩ := hp
  rw [descend_append] at hd
  cases h : descend mem root R' with
  | none => rw [h] at hd; cases hd
  | some _ => rfl

/-- A memory that keeps the present entries keeps every walk that ends: each of its steps reads a present entry. -/
theorem KeepsPresent.descend (h : KeepsPresent root mem mem') {R : List Nat} {u : Frame} (hR : ValidPath R)
    (hl : R.length ≤ 4) (hd : descend mem root R = some u) : descend mem' root R = some u := by
  rw [descend_congr fun R' j v hp hv => ?_]
  · exact hd
  obtain ⟨hR', hl', hj⟩ := ValidPath.of_prefix hp hR hl
  obtain ⟨w, hw⟩ := Option.isSome_iff_exists.1 (descend_prefix_isSome hp hd)
  rw [descend_concat, hv, Option.some_bind] at hw
  exact h v j ⟨R', hR', hl', hv⟩ hj (walkStep_eq_some_iff.1 hw).1

theorem KeepsPresent.isTable (h : KeepsPresent root mem mem') {u : Frame} (hu : IsTable mem root u) :
    IsTable mem' root u := by
  obtain ⟨R, hR, hl, hd⟩ := hu
  exact ⟨R, hR, hl, h.descend hR (by omega) hd⟩

theorem KeepsPresent.refl (root : Frame) (mem : PhysMem) : KeepsPresent root mem mem := fun _ _ _ _ _ => rfl

theorem KeepsPresent.trans (h : KeepsPresent root mem mem') (h' : KeepsPresent root mem' mem'') :
    KeepsPresent root mem mem'' := fun u j hu hj hp => by
  rw [h' u j (h.isTable hu) hj (by rw [h u j hu hj hp]; exact hp), h u j hu hj hp]

/-- A present level-1 entry stays where it is. -/
theorem KeepsPresent.leafEntry (h : KeepsPresent root mem mem') {k : Key} {e : PageTableEntry}
    (hk : leafEntry mem root k = some e) (hp : e.bits.getLsbD 0 = true) : leafEntry mem' root k = some e := by
  obtain ⟨T, hT, rfl⟩ := Option.map_eq_some'.1 hk
  rw [Ithaca.leafEntry, h.descend (tablePath_valid k) (by simp) hT, Option.map_some', entryAt,
    h T _ ⟨_, tablePath_valid k, by simp, hT⟩ (Nat.mod_lt _ (by norm_num)) hp]
  rfl

/-- A present level-1 entry keeps its key's translation. -/
theorem KeepsPresent.translateKey (h : KeepsPresent root mem mem') {k : Key} {f : Frame}
    (hk : translateKey mem root k = some f) : translateKey mem' root k = some f :=
  h.descend (keyPath_valid k) (by simp) hk

/-! ### Writes outside the hierarchy -/

theorem AgreesOnTables.descend (h : AgreesOnTables root mem mem') {R : List Nat} (hR : ValidPath R)
    (hl : R.length ≤ 4) : Ithaca.descend mem' root R = Ithaca.descend mem root R :=
  descend_congr fun R' j u hp hu => by
    obtain ⟨hR', hl', hj⟩ := ValidPath.of_prefix hp hR hl
    exact h u j ⟨R', hR', hl', hu⟩ hj

theorem AgreesOnTables.isTable_iff (h : AgreesOnTables root mem mem') {t : Frame} :
    IsTable mem' root t ↔ IsTable mem root t := by
  unfold IsTable
  refine exists_congr fun R => and_congr_right fun hR => and_congr_right fun hl => ?_
  rw [h.descend hR (by omega)]

theorem AgreesOnTables.translateKey (h : AgreesOnTables root mem mem') (k : Key) :
    Ithaca.translateKey mem' root k = Ithaca.translateKey mem root k :=
  h.descend (keyPath_valid k) (by simp)

theorem AgreesOnTables.leafEntry (h : AgreesOnTables root mem mem') (k : Key) :
    Ithaca.leafEntry mem' root k = Ithaca.leafEntry mem root k := by
  unfold Ithaca.leafEntry
  rw [h.descend (tablePath_valid k) (by simp)]
  cases hT : Ithaca.descend mem root (tablePath k) with
  | none => rfl
  | some T =>
    simp only [Option.map_some', entryAt]
    rw [h T _ ⟨_, tablePath_valid k, by simp, hT⟩ (Nat.mod_lt _ (by norm_num))]

theorem AgreesOnTables.wellFormed {m : PageMapper} (h : AgreesOnTables m.l4 mem mem') (hw : WellFormed mem m) :
    WellFormed mem' m where
  tree is js t his hil hjs hjl hi hj := by
    rw [h.descend his (by omega)] at hi
    rw [h.descend hjs (by omega)] at hj
    exact hw.tree is js t his hil hjs hjl hi hj
  covered t ht := hw.covered t (h.isTable_iff.1 ht)

theorem AgreesOnTables.noHuge (h : AgreesOnTables root mem mem') {k : Key} (hn : NoHugeOnWalk mem root k) :
    NoHugeOnWalk mem' root k := fun R j u hp hu => by
  obtain ⟨hR, hl, hj⟩ := ValidPath.of_prefix (hp.trans (List.prefix_append _ [k.val % 512])) (keyPath_valid k)
    (by simp)
  rw [h.descend hR (by omega)] at hu
  rw [h u j ⟨R, hR, hl, hu⟩ hj]
  exact hn R j u hp hu

variable (hroot : root.addr.toNat % 4096 = 0)
include hroot

/-- A write inside a page-aligned frame that is not a table is outside the hierarchy. -/
theorem agreesOnTables_write {f : Frame} (hf : f.addr.toNat % 4096 = 0) (hnt : ¬ IsTable mem root f) {a : Nat}
    (ha : f.InRegion a) (v : BitVec 64) : AgreesOnTables root mem (mem.write a v) := fun u j hu hj => by
  rw [write_apply, if_neg]
  rintro rfl
  exact slotAddr_not_inRegion (hu.aligned hroot) hf hj (fun e => hnt (e ▸ hu)) ha

/-- A write to an absent entry of a table keeps the present ones. -/
theorem keepsPresent_write_absent {U : Frame} {i : Nat} (hU : IsTable mem root U) (hi : i < 512)
    (habs : (mem (slotAddr U i)).getLsbD 0 = false) (v : BitVec 64) :
    KeepsPresent root mem (mem.write (slotAddr U i) v) := fun u j hu hj hp =>
  write_agree hroot hU hi v u j hu hj fun e he => by subst e; subst he; rw [hp] at habs; cases habs

/-- An install keeps the present entries: it zeroes a frame that is not a table and writes an absent entry. -/
theorem keepsPresent_linkTable {Q : List Nat} {U f : Frame} {i : Nat} (h : LinkSite mem root Q U i f) :
    KeepsPresent root mem (linkTable mem U i f) := fun u j hu hj hp => by
  have hUt : IsTable mem root U := ⟨Q, h.path, by have := h.short; omega, h.table⟩
  refine linkTable_agree hroot hUt h.index h.aligned.1 hu (fun e => h.fresh (e ▸ hu)) hj fun e he => ?_
  subst e; subst he
  rw [walkStep_eq_none_iff.1 h.absent] at hp
  cases hp

end Present

/-! ## The loop of `map_page` -/

section Loop

variable {σ : Type} {m : PageMapper} {A : FrameAllocator σ} {vaddr : BitVec 64}

/-- What `map_page` needs of its allocator, relative to an invariant `J` of the memory and the allocator's state: in a
well-formed hierarchy where `J` holds, `allocate_frame` returns; after an error `J` still holds; a frame it returns is
page-aligned, reached by the direct map at a nonzero address and not a table, and `J` holds again once it is installed
below an absent entry. -/
def AllocSpec (m : PageMapper) (A : FrameAllocator σ) (J : PhysMem → σ → Prop) : Prop :=
  ∀ mem s, WellFormed mem m → J mem s → ∃ r s', A.allocateFrame mem s = .ok (r, s') ∧
    (∀ e, r = .error e → J mem s') ∧
    ∀ f, r = .ok f → f.Aligned ∧ Linkable m.hhdm.base f ∧ ¬ IsTable mem m.l4 f ∧
      ∀ Q U i, LinkSite mem m.l4 Q U i f → J (linkTable mem U i f) s'

theorem mapLoop_absent_error {level : Nat} {ls : List Nat} {t : Frame} {mem : PhysMem} {s s' : σ}
    {e : PhysAllocError} (habs : walkStep mem t (tableIndex vaddr level) = none)
    (halloc : A.allocateFrame mem s = .ok (.error e, s')) :
    m.mapLoop A vaddr (level :: ls) t mem s = .ok (.error (.PhysAllocError e), mem, s') := by
  simp [PageMapper.mapLoop, walkStep_eq_none_iff.1 habs, halloc]

theorem mapLoop_absent_ok {level : Nat} {ls : List Nat} {t : Frame} {mem : PhysMem} {s s' : σ} {f : Frame}
    (habs : walkStep mem t (tableIndex vaddr level) = none) (halloc : A.allocateFrame mem s = .ok (.ok f, s'))
    (hf : f.Aligned) (hc : m.hhdm.Covers f) :
    m.mapLoop A vaddr (level :: ls) t mem s = m.mapLoop A vaddr ls f (linkTable mem t (tableIndex vaddr level) f) s' := by
  simp [PageMapper.mapLoop, walkStep_eq_none_iff.1 habs, halloc, Hhdm.toVirtual_of_covers hc, hf.and_frameMask,
    linkTable]

theorem mapLoop_present {level : Nat} {ls : List Nat} {t u : Frame} {mem : PhysMem} {s : σ}
    (hpres : walkStep mem t (tableIndex vaddr level) = some u)
    (hnh : (mem (slotAddr t (tableIndex vaddr level))).getLsbD 7 = false) (hc : m.hhdm.Covers u) :
    m.mapLoop A vaddr (level :: ls) t mem s = m.mapLoop A vaddr ls u mem s := by
  obtain ⟨hp, hu⟩ := walkStep_eq_some_iff.1 hpres
  simp only [entryAt] at hu
  subst hu
  simp [PageMapper.mapLoop, hp, hnh, Hhdm.toVirtual_of_covers hc]

/-- Where the walk is complete, the loop allocates nothing and ends at the level-1 table. -/
theorem mapLoop_of_descend {mem : PhysMem} {s : σ} (hw : WellFormed mem m) (k : Key)
    (hn : NoHugeOnWalk mem m.l4 k) :
    ∀ (ls D : List Nat) (t T : Frame), D ++ ls.map (tableIndex vaddr) = tablePath k →
      descend mem m.l4 D = some t → descend mem t (ls.map (tableIndex vaddr)) = some T →
      m.mapLoop A vaddr ls t mem s = .ok (.ok T, mem, s)
  | [], _, t, T, _, _, hT => by cases hT; rfl
  | level :: ls, D, t, T, hD, ht, hT => by
    obtain ⟨u, hu, hT⟩ := Option.bind_eq_some.1 hT
    have hp : D ++ [tableIndex vaddr level] <+: tablePath k := ⟨_, by simpa using hD⟩
    obtain ⟨hDv, hDl, -⟩ := ValidPath.of_prefix (hp.trans (List.prefix_append _ _)) (keyPath_valid k) (by simp)
    have hDu : descend mem m.l4 (D ++ [tableIndex vaddr level]) = some u := by
      rw [descend_concat, ht, Option.some_bind, hu]
    have hl := hp.length_le
    simp only [tablePath_length] at hl
    rw [mapLoop_present hu (hn D _ t hp ht (walkStep_eq_some_iff.1 hu).1)
      (hw.covers u ⟨_, fun i hi => tablePath_valid k i (hp.subset hi), hl, hDu⟩)]
    exact mapLoop_of_descend hw k hn ls _ u T (by simpa using hD) hDu hT

/-- At an absent entry of the table `t` that a prefix `D` of the key's table path reaches, a fresh page-aligned frame
can be linked: the loop's level is a `LinkSite`, and the longer prefix then reaches the frame. -/
theorem loop_linkSite {level : Nat} {ls D : List Nat} {t f : Frame} {mem : PhysMem} (hw : WellFormed mem m)
    (hD : D ++ (level :: ls).map (tableIndex vaddr) = tablePath (pageKey vaddr)) (ht : descend mem m.l4 D = some t)
    (habs : walkStep mem t (tableIndex vaddr level) = none) (hf : f.Aligned) (hnt : ¬ IsTable mem m.l4 f) :
    LinkSite mem m.l4 D t (tableIndex vaddr level) f ∧
      descend (linkTable mem t (tableIndex vaddr level) f) m.l4 (D ++ [tableIndex vaddr level]) = some f := by
  have hp : D ++ [tableIndex vaddr level] <+: tablePath (pageKey vaddr) := ⟨_, by simpa using hD⟩
  obtain ⟨hDv, hDl, hidx⟩ := ValidPath.of_prefix (hp.trans (List.prefix_append _ _)) (keyPath_valid _) (by simp)
  have hl := hp.length_le
  simp only [tablePath_length, List.length_append, List.length_singleton] at hl
  have site : LinkSite mem m.l4 D t (tableIndex vaddr level) f := ⟨hDv, by omega, ht, hidx, habs, hf, hnt⟩
  exact ⟨site, by rw [site.descend_eq hw.tree site.valid (by simp; omega), if_pos rfl]⟩

/-- At a present entry of the table `t` that a prefix `D` of the key's table path reaches, with no huge page on the
key's walk, the loop goes on to the next table, which the longer prefix reaches. -/
theorem loop_present {level : Nat} {ls D : List Nat} {t u : Frame} {mem : PhysMem} {s : σ} (hw : WellFormed mem m)
    (hn : NoHugeOnWalk mem m.l4 (pageKey vaddr))
    (hD : D ++ (level :: ls).map (tableIndex vaddr) = tablePath (pageKey vaddr)) (ht : descend mem m.l4 D = some t)
    (hu : walkStep mem t (tableIndex vaddr level) = some u) :
    m.mapLoop A vaddr (level :: ls) t mem s = m.mapLoop A vaddr ls u mem s ∧
      descend mem m.l4 (D ++ [tableIndex vaddr level]) = some u := by
  have hp : D ++ [tableIndex vaddr level] <+: tablePath (pageKey vaddr) := ⟨_, by simpa using hD⟩
  have hl := hp.length_le
  simp only [tablePath_length] at hl
  have hDu : descend mem m.l4 (D ++ [tableIndex vaddr level]) = some u := by
    rw [descend_concat, ht, Option.some_bind, hu]
  exact ⟨mapLoop_present hu (hn D _ t hp ht (walkStep_eq_some_iff.1 hu).1)
    (hw.covers u ⟨_, fun i hi => tablePath_valid _ i (hp.subset hi), hl, hDu⟩), hDu⟩

/-- What the loop of `map_page` leaves: a well-formed hierarchy with `J`, no huge page on the walk, the same
translations and at least the same tables; on `Ok(t)` the walk of the key's table path reaches `t`, and the only
error is an allocation failure. -/
structure MapLoopPost (m : PageMapper) (J : PhysMem → σ → Prop) (k : Key) (mem : PhysMem)
    (r : Except MapError Frame) (mem' : PhysMem) (s' : σ) : Prop where
  wf : WellFormed mem' m
  inv : J mem' s'
  noHuge : ∀ k', NoHugeOnWalk mem m.l4 k' → NoHugeOnWalk mem' m.l4 k'
  translate : ∀ k', translateKey mem' m.l4 k' = translateKey mem m.l4 k'
  keep : KeepsPresent m.l4 mem mem'
  reach : ∀ T, r = .ok T → descend mem' m.l4 (tablePath k) = some T
  error : ∀ e, r = .error e → ∃ pe, e = .PhysAllocError pe

/-- The loop of `map_page`, from the table at a prefix `D` of the key's table path, returns (it does not panic) and
leaves what `MapLoopPost` says. -/
theorem mapLoop_spec {J : PhysMem → σ → Prop} (hA : AllocSpec m A J) :
    ∀ (ls D : List Nat) (t : Frame) (mem : PhysMem) (s : σ),
      D ++ ls.map (tableIndex vaddr) = tablePath (pageKey vaddr) → WellFormed mem m → J mem s →
      NoHugeOnWalk mem m.l4 (pageKey vaddr) → descend mem m.l4 D = some t →
      ∃ r mem' s', m.mapLoop A vaddr ls t mem s = .ok (r, mem', s') ∧
        MapLoopPost m J (pageKey vaddr) mem r mem' s'
  | [], D, t, mem, s, hD, hw, hJ, hn, ht => by
    simp only [List.map_nil, List.append_nil] at hD
    refine ⟨.ok t, mem, s, rfl, hw, hJ, fun _ h => h, fun _ => rfl, .refl _ _, ?_, nofun⟩
    rintro T ⟨⟩
    exact hD ▸ ht
  | level :: ls, D, t, mem, s, hD, hw, hJ, hn, ht => by
    have hD' : (D ++ [tableIndex vaddr level]) ++ ls.map (tableIndex vaddr) = tablePath (pageKey vaddr) := by
      simpa using hD
    cases habs : walkStep mem t (tableIndex vaddr level) with
    | none =>
      obtain ⟨r, s1, halloc, herr, hok⟩ := hA mem s hw hJ
      cases r with
      | error e =>
        exact ⟨_, mem, s1, mapLoop_absent_error habs halloc, hw, herr e rfl, fun _ h => h, fun _ => rfl, .refl _ _,
          nofun, fun _ h => ⟨e, by cases h; rfl⟩⟩
      | ok f =>
        obtain ⟨hf, hc, hnt, hJ'⟩ := hok f rfl
        obtain ⟨site, hDf⟩ := loop_linkSite hw hD ht habs hf hnt
        obtain ⟨r, mem', s', hrun, post⟩ := mapLoop_spec hA ls _ f _ s1 hD' (wellFormed_linkTable site hw hc)
          (hJ' D t _ site) (noHugeOnWalk_linkTable site hw.tree hn) hDf
        refine ⟨r, mem', s', (mapLoop_absent_ok habs halloc hf hc.1).trans hrun,
          { post with
            noHuge := fun k' h => post.noHuge k' (noHugeOnWalk_linkTable site hw.tree h)
            translate := fun k' => (post.translate k').trans (translateKey_linkTable site hw.tree k')
            keep := (keepsPresent_linkTable m.l4_aligned site).trans post.keep }⟩
    | some u =>
      obtain ⟨hrun, hDu⟩ := loop_present (A := A) (s := s) hw hn hD ht habs
      rw [hrun]
      exact mapLoop_spec hA ls _ u mem s hD' hw hJ hn hDu

/-- A budget for the allocator: `B n` says `n` more frames can be had. From `B (n + 1)` an allocation returns a frame,
and once that frame is linked as a table `B n` holds. -/
def AllocBudget (m : PageMapper) (A : FrameAllocator σ) (B : Nat → PhysMem → σ → Prop) : Prop :=
  ∀ n mem s, WellFormed mem m → B (n + 1) mem s → ∃ f s', A.allocateFrame mem s = .ok (.ok f, s') ∧
    ∀ Q U i, LinkSite mem m.l4 Q U i f → B n (linkTable mem U i f) s'

/-- With a budget of at least one frame for each level left, the loop of `map_page` does not run out of frames: it
ends at the level-1 table, and the budget shrinks by at most one frame for each level. -/
theorem mapLoop_budget {J : PhysMem → σ → Prop} {B : Nat → PhysMem → σ → Prop} (hA : AllocSpec m A J)
    (hB : AllocBudget m A B) (hBJ : ∀ n mem s, B n mem s → J mem s) :
    ∀ (ls D : List Nat) (t : Frame) (mem : PhysMem) (s : σ) (n : Nat), ls.length ≤ n →
      D ++ ls.map (tableIndex vaddr) = tablePath (pageKey vaddr) → WellFormed mem m → B n mem s →
      NoHugeOnWalk mem m.l4 (pageKey vaddr) → descend mem m.l4 D = some t →
      ∃ T mem' s' n', m.mapLoop A vaddr ls t mem s = .ok (.ok T, mem', s') ∧ n ≤ n' + ls.length ∧ B n' mem' s'
  | [], _, t, mem, s, n, _, _, _, hBn, _, _ => ⟨t, mem, s, n, rfl, by simp, hBn⟩
  | level :: ls, D, t, mem, s, n, hlen, hD, hw, hBn, hn, ht => by
    have hD' : (D ++ [tableIndex vaddr level]) ++ ls.map (tableIndex vaddr) = tablePath (pageKey vaddr) := by
      simpa using hD
    simp only [List.length_cons] at hlen
    cases habs : walkStep mem t (tableIndex vaddr level) with
    | none =>
      obtain ⟨n', rfl⟩ : ∃ n', n = n' + 1 := ⟨n - 1, by omega⟩
      obtain ⟨f, s1, halloc, hB'⟩ := hB n' mem s hw hBn
      obtain ⟨r, s1', halloc', -, hok⟩ := hA mem s hw (hBJ _ _ _ hBn)
      rw [halloc, Except.ok.injEq, Prod.mk.injEq] at halloc'
      obtain ⟨rfl, rfl⟩ := halloc'
      obtain ⟨hf, hc, hnt, -⟩ := hok f rfl
      obtain ⟨site, hDf⟩ := loop_linkSite hw hD ht habs hf hnt
      obtain ⟨T, mem', s', n'', hrun, hle, hB''⟩ := mapLoop_budget hA hB hBJ ls _ f _ s1 n' (by omega) hD'
        (wellFormed_linkTable site hw hc) (hB' D t _ site) (noHugeOnWalk_linkTable site hw.tree hn) hDf
      exact ⟨T, mem', s', n'', (mapLoop_absent_ok habs halloc hf hc.1).trans hrun, by simp only [List.length_cons]; omega,
        hB''⟩
    | some u =>
      obtain ⟨hrun, hDu⟩ := loop_present (A := A) (s := s) hw hn hD ht habs
      obtain ⟨T, mem', s', n', hrun', hle, hB'⟩ := mapLoop_budget hA hB hBJ ls _ u mem s n (by omega) hD' hw hBn hn hDu
      exact ⟨T, mem', s', n', hrun.trans hrun', by simp only [List.length_cons]; omega, hB'⟩

end Loop

/-! ## `map_page`, `unmap_page` and `translate_page` -/

section Ops

variable {σ : Type} {m : PageMapper} {A : FrameAllocator σ} {J : PhysMem → σ → Prop}

/-- A level-1 write keeps the walks free of huge pages: it writes below every entry they read. -/
theorem noHugeOnWalk_write_leaf {mem : PhysMem} {k k' : Key} {T : Frame} (hw : WellFormed mem m)
    (hT : descend mem m.l4 (tablePath k) = some T) (v : BitVec 64) (hn : NoHugeOnWalk mem m.l4 k') :
    NoHugeOnWalk (mem.write (slotAddr T (k.val % 512)) v) m.l4 k' := by
  intro R j u hp hu
  obtain ⟨hR, hl, hj⟩ := ValidPath.of_prefix (hp.trans (List.prefix_append _ [k'.val % 512])) (keyPath_valid k')
    (by simp)
  have hl2 := hp.length_le
  simp only [List.length_append, List.length_singleton, tablePath_length] at hl2
  rw [descend_write_leaf hw.tree hT v hR (by omega), if_neg (by rintro rfl; simp at hl2)] at hu
  have hut : IsTable mem m.l4 u := ⟨R, hR, hl, hu⟩
  have hTt : IsTable mem m.l4 T := ⟨_, tablePath_valid k, by simp, hT⟩
  rw [write_agree m.l4_aligned hTt (Nat.mod_lt _ (by norm_num)) v u j hut hj fun e _ => by
    subst e
    have := hw.tree R (tablePath k) u hR hl (tablePath_valid k) (by simp) hu hT
    subst this
    simp at hl2]
  exact hn R j u hp hu

/-- What `map_page(p, frame, flags)` leaves, in terms of the translation of `p`'s key `k`. `J` holds afterwards
whenever the level-1 write keeps it. -/
structure MapPagePost (m : PageMapper) (J : PhysMem → σ → Prop) (k : Key) (frame : Frame) (flags : PageFlags)
    (mem : PhysMem) (s : σ) (r : Except MapError Unit) (mem' : PhysMem) (s' : σ) : Prop where
  wf : WellFormed mem' m
  inv : (∀ mem s T, WellFormed mem m → J mem s → descend mem m.l4 (tablePath k) = some T →
    walkStep mem T (k.val % 512) = none →
    J (mem.write (slotAddr T (k.val % 512)) (PageTableEntry.new flags frame).bits) s) → J mem' s'
  noHuge : ∀ k', NoHugeOnWalk mem m.l4 k' → NoHugeOnWalk mem' m.l4 k'
  keep : KeepsPresent m.l4 mem mem'
  already : r = .error .PageAlreadyMapped ↔ (translateKey mem m.l4 k).isSome
  untouched : r = .error .PageAlreadyMapped → mem' = mem ∧ s' = s
  mapped : r = .ok () → ∀ k', translateKey mem' m.l4 k' =
    if k' = k then some (PageTableEntry.new flags frame).frame else translateKey mem m.l4 k'
  entry : r = .ok () → leafEntry mem' m.l4 k = some (PageTableEntry.new flags frame)
  failed : ∀ e, r = .error (.PhysAllocError e) → ∀ k', translateKey mem' m.l4 k' = translateKey mem m.l4 k'

/-- `map_page` of any frame with `PRESENT` in the flags, over a well-formed hierarchy with no huge page on the page's
walk and an allocator that meets `AllocSpec` under `J`: it returns, and leaves what `MapPagePost` says. The key is then
mapped to the entry's `frame()`, which is the frame itself when it is page-aligned and below `2^63`. -/
theorem mapPage_spec (hA : AllocSpec m A J) {p : Page} {flags : PageFlags} {mem : PhysMem} {s : σ}
    (hw : WellFormed mem m) (hJ : J mem s) (hn : NoHugeOnWalk mem m.l4 (pageKey p.addr)) (frame : Frame)
    (hfl : flags.bits.getLsbD 0 = true) :
    ∃ r mem' s', m.mapPage A p frame flags mem s = .ok (r, mem', s') ∧
      MapPagePost m J (pageKey p.addr) frame flags mem s r mem' s' := by
  have hpath : [] ++ levels.map (tableIndex p.addr) = tablePath (pageKey p.addr) := by
    rw [List.nil_append, levels_map_tableIndex]
  obtain ⟨r, memL, sL, hrun, post⟩ := mapLoop_spec hA levels [] m.l4 mem s hpath hw hJ hn rfl
  -- where the key is mapped, the loop changed nothing
  have hsame : ∀ fr, translateKey mem m.l4 (pageKey p.addr) = some fr → ∃ T, r = .ok T ∧ memL = mem ∧ sL = s := by
    intro fr hfr'
    rw [translateKey, keyPath, descend_concat] at hfr'
    obtain ⟨T, hT, -⟩ := Option.bind_eq_some.1 hfr'
    have : m.mapLoop A p.addr levels m.l4 mem s = .ok (.ok T, mem, s) :=
      mapLoop_of_descend hw _ hn levels [] m.l4 T hpath rfl (by rw [levels_map_tableIndex]; exact hT)
    rw [this] at hrun
    cases hrun
    exact ⟨T, rfl, rfl, rfl⟩
  simp only [PageMapper.mapPage, hrun, except_ok_bind]
  cases r with
  | error e =>
    obtain ⟨pe, rfl⟩ := post.error _ rfl
    refine ⟨_, memL, sL, rfl, post.wf, fun _ => post.inv, post.noHuge, post.keep, ⟨nofun, ?_⟩, ?_,
      ?_, nofun, ?_⟩
    · intro hs
      obtain ⟨fr, hfr'⟩ := Option.isSome_iff_exists.1 hs
      obtain ⟨T, hT, -⟩ := hsame fr hfr'
      cases hT
    · exact nofun
    · exact nofun
    · intro _ _ k'
      exact post.translate k'
  | ok T =>
    have hT := post.reach T rfl
    have hidx : tableIndex p.addr 0 = (pageKey p.addr).val % 512 := tableIndex_zero p.addr
    have htr : translateKey memL m.l4 (pageKey p.addr) = walkStep memL T ((pageKey p.addr).val % 512) := by
      rw [translateKey, keyPath, descend_concat, hT, Option.some_bind]
    simp only [hidx, flags_contains_present]
    split
    · rename_i hp
      have hsome : (translateKey mem m.l4 (pageKey p.addr)).isSome := by
        rw [← post.translate, htr, walkStep, PageTableEntry.target, entryAt, if_pos hp]
        rfl
      obtain ⟨fr, hfr'⟩ := Option.isSome_iff_exists.1 hsome
      obtain ⟨T', hT', rfl, rfl⟩ := hsame fr hfr'
      exact ⟨_, memL, sL, rfl, post.wf, fun _ => post.inv, post.noHuge, post.keep, iff_of_true rfl hsome,
        fun _ => ⟨rfl, rfl⟩, nofun, nofun, nofun⟩
    · rename_i hp
      have habs : walkStep memL T ((pageKey p.addr).val % 512) = none := walkStep_eq_none_iff.2 (by simpa using hp)
      refine ⟨_, _, sL, rfl, wellFormed_write_leaf post.wf hT _, fun hleaf => hleaf _ _ T post.wf post.inv hT habs,
        fun k' h => noHugeOnWalk_write_leaf post.wf hT _ (post.noHuge k' h),
        post.keep.trans (keepsPresent_write_absent m.l4_aligned ⟨_, tablePath_valid _, by simp, hT⟩
          (Nat.mod_lt _ (by norm_num)) (walkStep_eq_none_iff.1 habs) _), ⟨nofun, ?_⟩,
        nofun, ?_, fun _ => ?_, nofun⟩
      · rw [← post.translate, htr, habs]
        intro h; cases h
      · intro _ k'
        rw [translateKey_write_leaf post.wf.tree hT, ← post.translate k', PageTableEntry.target_new_frame frame hfl]
      · rw [leafEntry, descend_write_leaf post.wf.tree hT _ (tablePath_valid _) (by simp),
          if_neg (by simp [keyPath]), hT, Option.map_some', entryAt, write_apply, if_pos rfl]

/-- `map_page` with a budget of at least three frames does not run out of frames, and the budget shrinks by at most
three frames, one for each table it links. The budget must survive the level-1 write. -/
theorem mapPage_budget {B : Nat → PhysMem → σ → Prop} (hA : AllocSpec m A J) (hB : AllocBudget m A B)
    (hBJ : ∀ n mem s, B n mem s → J mem s) {p : Page} {frame : Frame} {flags : PageFlags}
    (hleaf : ∀ n mem s T, WellFormed mem m → B n mem s → descend mem m.l4 (tablePath (pageKey p.addr)) = some T →
      B n (mem.write (slotAddr T ((pageKey p.addr).val % 512)) (PageTableEntry.new flags frame).bits) s)
    {mem : PhysMem} {s : σ} {n : Nat} (hw : WellFormed mem m) (hBn : B n mem s) (h3 : 3 ≤ n)
    (hn : NoHugeOnWalk mem m.l4 (pageKey p.addr)) :
    ∃ r mem' s' n', m.mapPage A p frame flags mem s = .ok (r, mem', s') ∧ (∀ e, r ≠ .error (.PhysAllocError e)) ∧
      n ≤ n' + 3 ∧ B n' mem' s' := by
  have hpath : [] ++ levels.map (tableIndex p.addr) = tablePath (pageKey p.addr) := by
    rw [List.nil_append, levels_map_tableIndex]
  obtain ⟨T, memL, sL, n', hrun, hle, hB'⟩ := mapLoop_budget hA hB hBJ levels [] m.l4 mem s n h3 hpath hw hBn hn rfl
  obtain ⟨r, memL', sL', hrun', post⟩ := mapLoop_spec hA levels [] m.l4 mem s hpath hw (hBJ _ _ _ hBn) hn rfl
  rw [hrun, Except.ok.injEq, Prod.mk.injEq, Prod.mk.injEq] at hrun'
  obtain ⟨rfl, rfl, rfl⟩ := hrun'
  simp only [PageMapper.mapPage, hrun, except_ok_bind, tableIndex_zero]
  split
  · exact ⟨_, _, _, n', rfl, nofun, hle, hB'⟩
  · exact ⟨_, _, _, n', rfl, nofun, hle, hleaf n' memL sL T post.wf hB' (post.reach T rfl)⟩

/-- `unmap_page` of an unmapped page returns `Err(PageNotMapped)` and writes nothing. -/
theorem unmapPage_of_unmapped {mem : PhysMem} (hw : WellFormed mem m) {p : Page}
    (h : translateKey mem m.l4 (pageKey p.addr) = none) : m.unmapPage mem p = .ok (.error .PageNotMapped, mem) := by
  rw [translateKey, keyPath, descend_concat] at h
  simp only [PageMapper.unmapPage, getEntry_eq hw.covers, except_ok_bind]
  cases hT : descend mem m.l4 (tablePath (pageKey p.addr)) with
  | none => rfl
  | some T =>
    rw [hT, Option.some_bind, walkStep_eq_none_iff] at h
    simp [h]

/-- `unmap_page` of a mapped page returns its frame and clears its level-1 entry to `new(PageFlags::empty(),
frame)`. -/
theorem unmapPage_of_mapped {mem : PhysMem} (hw : WellFormed mem m) {p : Page} {fr : Frame}
    (h : translateKey mem m.l4 (pageKey p.addr) = some fr) :
    ∃ T, descend mem m.l4 (tablePath (pageKey p.addr)) = some T ∧ m.unmapPage mem p =
      .ok (.ok fr, mem.write (slotAddr T ((pageKey p.addr).val % 512)) (PageTableEntry.new .empty fr).bits) := by
  rw [translateKey, keyPath, descend_concat] at h
  obtain ⟨T, hT, hstep⟩ := Option.bind_eq_some.1 h
  obtain ⟨hp, rfl⟩ := walkStep_eq_some_iff.1 hstep
  refine ⟨T, hT, ?_⟩
  simp [PageMapper.unmapPage, getEntry_eq hw.covers, hT, hp, entryAt]

/-- `unmap_page` over a well-formed hierarchy returns, removes the page's key from the map and keeps the hierarchy
well formed; it returns the key's frame if the key was mapped, and otherwise `Err(PageNotMapped)` with memory
untouched. -/
theorem unmapPage_spec {mem : PhysMem} (hw : WellFormed mem m) (p : Page) :
    ∃ r mem', m.unmapPage mem p = .ok (r, mem') ∧ WellFormed mem' m ∧
      (∀ k', translateKey mem' m.l4 k' = if k' = pageKey p.addr then none else translateKey mem m.l4 k') ∧
      (∀ fr, translateKey mem m.l4 (pageKey p.addr) = some fr → r = .ok fr) ∧
      (translateKey mem m.l4 (pageKey p.addr) = none → r = .error .PageNotMapped ∧ mem' = mem) := by
  cases h : translateKey mem m.l4 (pageKey p.addr) with
  | none =>
    refine ⟨_, mem, unmapPage_of_unmapped hw h, hw, fun k' => ?_, nofun, fun _ => ⟨rfl, rfl⟩⟩
    split
    · subst k'; exact h
    · rfl
  | some fr =>
    obtain ⟨T, hT, hu⟩ := unmapPage_of_mapped hw h
    have hfr : fr.Aligned := by
      rw [translateKey, keyPath, descend_concat, hT, Option.some_bind] at h
      exact (walkStep_eq_some_iff.1 h).2 ▸ PageTableEntry.frame_aligned _
    refine ⟨_, _, hu, wellFormed_write_leaf hw hT _, fun k' => ?_, fun _ h' => (by cases h'; rfl),
      nofun⟩
    rw [translateKey_write_leaf hw.tree hT, PageTableEntry.target_new_empty hfr]

end Ops

/-! ## The refinement -/

/-- Over a well-formed hierarchy, `translate_page` is the map `translateKey` at the page's key. With an allocator as
`AllocSpec` asks and no huge page on the walk, `map_page` reports a mapped key and changes nothing, or maps the key to
the frame, or runs out of frames with the map unchanged; `unmap_page` removes a mapped key and returns its frame, and
reports an unmapped one. Both keep the hierarchy well formed. -/
theorem pageMapper_refines {σ : Type} (m : PageMapper) (A : FrameAllocator σ) (J : PhysMem → σ → Prop)
    (hA : AllocSpec m A J) (mem : PhysMem) (s : σ) (hw : WellFormed mem m) (hJ : J mem s) (p : Page)
    (hn : NoHugeOnWalk mem m.l4 (pageKey p.addr)) (frame : Frame) (hfr : frame.Aligned) (flags : PageFlags)
    (hfl : flags.bits.getLsbD 0 = true) :
    (∀ q : Page, m.translatePage mem q = .ok (translateKey mem m.l4 (pageKey q.addr))) ∧
    (∃ r mem' s', m.mapPage A p frame flags mem s = .ok (r, mem', s') ∧ WellFormed mem' m ∧
      (r = .error .PageAlreadyMapped ↔ (translateKey mem m.l4 (pageKey p.addr)).isSome) ∧
      (r = .error .PageAlreadyMapped → mem' = mem ∧ s' = s) ∧
      (r = .ok () → translateKey mem' m.l4 = Function.update (translateKey mem m.l4) (pageKey p.addr) (some frame)) ∧
      (∀ e, r = .error (.PhysAllocError e) → translateKey mem' m.l4 = translateKey mem m.l4)) ∧
    (∃ r mem', m.unmapPage mem p = .ok (r, mem') ∧ WellFormed mem' m ∧
      (∀ fr, translateKey mem m.l4 (pageKey p.addr) = some fr →
        r = .ok fr ∧ translateKey mem' m.l4 = Function.update (translateKey mem m.l4) (pageKey p.addr) none) ∧
      (translateKey mem m.l4 (pageKey p.addr) = none → r = .error .PageNotMapped ∧ mem' = mem)) := by
  refine ⟨translatePage_eq hw, ?_, ?_⟩
  · obtain ⟨r, mem', s', hrun, post⟩ := mapPage_spec hA hw hJ hn frame hfl
    refine ⟨r, mem', s', hrun, post.wf, post.already, post.untouched, fun hr => funext fun k' => ?_,
      fun e he => funext (post.failed e he)⟩
    rw [post.mapped hr k', Function.update_apply, frame_new_of_aligned flags hfr]
  · obtain ⟨r, mem', hrun, hw', htr, hok, hnot⟩ := unmapPage_spec hw p
    refine ⟨r, mem', hrun, hw', fun fr hfr' => ⟨hok fr hfr', funext fun k' => ?_⟩, hnot⟩
    rw [htr k', Function.update_apply]

/-! ## A list of frames as the allocator -/

/-- An allocator that hands out the frames of a list in order and fails when it is empty. -/
def listAlloc : FrameAllocator (List Frame) := ⟨fun _ s => match s with
  | [] => .ok (.error ⟨⟩, [])
  | f :: fs => .ok (.ok f, fs)⟩

/-- The frames left to hand out are distinct, page-aligned, reached by the direct map and not tables. -/
def FreshFrames (m : PageMapper) (mem : PhysMem) (fs : List Frame) : Prop :=
  fs.Nodup ∧ ∀ f ∈ fs, f.Aligned ∧ Linkable m.hhdm.base f ∧ ¬ IsTable mem m.l4 f

/-- A list of fresh frames is an allocator `map_page` can use. -/
theorem listAlloc_spec (m : PageMapper) : AllocSpec m listAlloc (FreshFrames m) := by
  rintro mem (_ | ⟨f, fs⟩) hw hJ
  · exact ⟨_, _, rfl, fun _ _ => hJ, nofun⟩
  · obtain ⟨hnd, hfs⟩ := hJ
    obtain ⟨hf, hc, hnt⟩ := hfs f (List.mem_cons_self _ _)
    refine ⟨_, _, rfl, nofun, fun f' hf' => ?_⟩
    cases hf'
    refine ⟨hf, hc, hnt, fun Q U i site => ⟨(List.nodup_cons.1 hnd).2, fun g hg => ?_⟩⟩
    obtain ⟨hga, hgc, hgt⟩ := hfs g (List.mem_cons_of_mem _ hg)
    refine ⟨hga, hgc, fun ht => ?_⟩
    rcases (isTable_linkTable site hw.tree).1 ht with ht | rfl
    · exact hgt ht
    · exact (List.nodup_cons.1 hnd).1 hg

/-- A hierarchy whose top table has no present entry is the top table alone. -/
theorem descend_of_root_absent {mem : PhysMem} {root : Frame} (h : ∀ i < 512, walkStep mem root i = none)
    {R : List Nat} (hR : ValidPath R) (hne : R ≠ []) : descend mem root R = none := by
  obtain ⟨i, R, rfl⟩ := List.exists_cons_of_ne_nil hne
  simp [descend, h i (hR i (List.mem_cons_self _ _))]

theorem wellFormed_of_root_absent {mem : PhysMem} {m : PageMapper} (h : ∀ i < 512, walkStep mem m.l4 i = none)
    (hl4 : m.l4.addr.toNat + m.hhdm.base.toNat ≠ 0) : WellFormed mem m ∧ ∀ t, IsTable mem m.l4 t → t = m.l4 := by
  have hroot : ∀ R t, ValidPath R → descend mem m.l4 R = some t → R = [] ∧ t = m.l4 := fun R t hR hd => by
    by_cases hne : R = []
    · subst hne; exact ⟨rfl, (Option.some.inj hd).symm⟩
    · rw [descend_of_root_absent h hR hne] at hd; cases hd
  refine ⟨⟨fun is js t his _ hjs _ hi hj => ?_, fun t ⟨R, hR, _, hd⟩ => (hroot R t hR hd).2 ▸ ⟨m.l4_covered, hl4⟩⟩,
    fun t ⟨R, hR, _, hd⟩ => (hroot R t hR hd).2⟩
  rw [(hroot is t his hi).1, (hroot js t hjs hj).1]

/-- A hierarchy whose top table has no present entry has no huge page on any walk. -/
theorem noHugeOnWalk_of_root_absent {mem : PhysMem} {root : Frame} (h : ∀ i < 512, walkStep mem root i = none)
    (k : Key) : NoHugeOnWalk mem root k := by
  intro R j u hp hu hpres
  obtain ⟨hR, -, hj⟩ := ValidPath.of_prefix (hp.trans (List.prefix_append _ [_])) (keyPath_valid _) (by simp)
  by_cases hne : R = []
  · subst hne
    cases hu
    rw [walkStep_eq_none_iff.1 (h j hj)] at hpres
    cases hpres
  · rw [descend_of_root_absent h hR hne] at hu
    cases hu

/-- Zeroed memory. -/
def zeroMem : PhysMem := fun _ => 0

/-- An empty hierarchy: the top table at `0x1000`, with the direct map at offset 0. -/
def zeroMapper : PageMapper := ⟨⟨0x1000⟩, ⟨0⟩, by decide, by decide⟩

theorem zeroMapper_root_absent : ∀ i < 512, walkStep zeroMem zeroMapper.l4 i = none := fun _ _ =>
  walkStep_eq_none_iff.2 (by simp [zeroMem])

/-- The frames `0x2000`, `0x3000` and `0x4000` are fresh over the empty hierarchy. -/
theorem zeroMem_freshFrames : FreshFrames zeroMapper zeroMem [⟨0x2000⟩, ⟨0x3000⟩, ⟨0x4000⟩] :=
  have hw := wellFormed_of_root_absent zeroMapper_root_absent (by decide)
  ⟨by decide, fun f hf => ⟨by revert f; decide, by revert f; decide,
    fun ht => by have := hw.2 f ht; subst this; revert hf; decide⟩⟩

/-- The refinement at the empty hierarchy over zeroed memory, with three fresh frames to hand out. -/
theorem pageMapper_refines_empty :
    (WellFormed zeroMem zeroMapper ∧ FreshFrames zeroMapper zeroMem [⟨0x2000⟩, ⟨0x3000⟩, ⟨0x4000⟩] ∧
      NoHugeOnWalk zeroMem zeroMapper.l4 (pageKey 0) ∧ Frame.Aligned ⟨0x7000⟩ ∧
      PageFlags.present.bits.getLsbD 0 = true) ∧
    (∀ q : Page, zeroMapper.translatePage zeroMem q = .ok (translateKey zeroMem zeroMapper.l4 (pageKey q.addr))) ∧
    (∃ r mem' s', zeroMapper.mapPage listAlloc ⟨0⟩ ⟨0x7000⟩ .present zeroMem [⟨0x2000⟩, ⟨0x3000⟩, ⟨0x4000⟩] =
        .ok (r, mem', s') ∧ WellFormed mem' zeroMapper ∧
      (r = .error .PageAlreadyMapped ↔ (translateKey zeroMem zeroMapper.l4 (pageKey 0)).isSome) ∧
      (r = .error .PageAlreadyMapped → mem' = zeroMem ∧ s' = [⟨0x2000⟩, ⟨0x3000⟩, ⟨0x4000⟩]) ∧
      (r = .ok () → translateKey mem' zeroMapper.l4 =
        Function.update (translateKey zeroMem zeroMapper.l4) (pageKey 0) (some ⟨0x7000⟩)) ∧
      (∀ e, r = .error (.PhysAllocError e) → translateKey mem' zeroMapper.l4 = translateKey zeroMem zeroMapper.l4)) ∧
    (∃ r mem', zeroMapper.unmapPage zeroMem ⟨0⟩ = .ok (r, mem') ∧ WellFormed mem' zeroMapper ∧
      (∀ fr, translateKey zeroMem zeroMapper.l4 (pageKey 0) = some fr →
        r = .ok fr ∧ translateKey mem' zeroMapper.l4 = Function.update (translateKey zeroMem zeroMapper.l4) (pageKey 0) none) ∧
      (translateKey zeroMem zeroMapper.l4 (pageKey 0) = none → r = .error .PageNotMapped ∧ mem' = zeroMem)) :=
  have hw := (wellFormed_of_root_absent zeroMapper_root_absent (by decide)).1
  have hn : NoHugeOnWalk zeroMem zeroMapper.l4 (pageKey 0) := noHugeOnWalk_of_root_absent zeroMapper_root_absent _
  ⟨⟨hw, zeroMem_freshFrames, hn, by decide, rfl⟩, pageMapper_refines zeroMapper listAlloc (FreshFrames zeroMapper)
    (listAlloc_spec zeroMapper) zeroMem _ hw zeroMem_freshFrames ⟨0⟩ hn ⟨0x7000⟩ (by decide) .present rfl⟩

/-! ## Mapping and unmapping a page -/

/-- `map_page(p, frame, flags)` that returned `Ok`, followed by `unmap_page(p)`: the unmap returns the frame the new
entry holds, and every key translates as it did before the two calls. -/
theorem unmapPage_after_mapPage {σ : Type} {m : PageMapper} {A : FrameAllocator σ} {J : PhysMem → σ → Prop}
    (hA : AllocSpec m A J) {mem mem1 : PhysMem} {s s1 : σ} (hw : WellFormed mem m) (hJ : J mem s) {p : Page}
    (hn : NoHugeOnWalk mem m.l4 (pageKey p.addr)) {frame : Frame} {flags : PageFlags}
    (hfl : flags.bits.getLsbD 0 = true) (hmap : m.mapPage A p frame flags mem s = .ok (.ok (), mem1, s1)) :
    ∃ mem2, m.unmapPage mem1 p = .ok (.ok (PageTableEntry.new flags frame).frame, mem2) ∧
      ∀ k, translateKey mem2 m.l4 k = translateKey mem m.l4 k := by
  obtain ⟨r, mem1', s1', hrun, post⟩ := mapPage_spec hA hw hJ hn frame hfl
  rw [hmap, Except.ok.injEq, Prod.mk.injEq, Prod.mk.injEq] at hrun
  obtain ⟨rfl, rfl, rfl⟩ := hrun
  -- the map succeeded, so the key was not mapped before
  have hfree : translateKey mem m.l4 (pageKey p.addr) = none :=
    Option.not_isSome_iff_eq_none.1 fun h => by cases post.already.2 h
  obtain ⟨r2, mem2, hun, -, htr2, hok, -⟩ := unmapPage_spec post.wf p
  obtain rfl := hok _ (by rw [post.mapped rfl, if_pos rfl])
  refine ⟨mem2, hun, fun k => ?_⟩
  rw [htr2, post.mapped rfl]
  split_ifs with hk
  · rw [hk, hfree]
  · rfl

/-- Map the page `0` to `0x7000` over the empty hierarchy, then unmap it. -/
theorem unmapPage_after_mapPage_empty :
    ∃ mem1 s1, zeroMapper.mapPage listAlloc ⟨0⟩ ⟨0x7000⟩ .present zeroMem [⟨0x2000⟩, ⟨0x3000⟩, ⟨0x4000⟩] =
        .ok (.ok (), mem1, s1) ∧
      ∃ mem2, zeroMapper.unmapPage mem1 ⟨0⟩ = .ok (.ok (PageTableEntry.new .present ⟨0x7000⟩).frame, mem2) ∧
        ∀ k, translateKey mem2 zeroMapper.l4 k = translateKey zeroMem zeroMapper.l4 k :=
  ⟨_, _, rfl, unmapPage_after_mapPage (listAlloc_spec zeroMapper) (wellFormed_of_root_absent zeroMapper_root_absent (by decide)).1
    zeroMem_freshFrames (noHugeOnWalk_of_root_absent zeroMapper_root_absent _) rfl rfl⟩

/-! ## An unaligned frame from the allocator -/

/-- Memory whose top table at `0x1000` is empty, holding stale words at `0x2000`, `0x4000` and `0x5000` that read as
a chain of present entries. -/
def staleMem : PhysMem := fun a =>
  if a = 0x2000 then 0x4003 else if a = 0x4000 then 0x5003 else if a = 0x5000 then 0x6003 else 0

/-- An allocator that hands out the frame `0x2008`, which is not page-aligned. -/
def unalignedAlloc : FrameAllocator Unit := ⟨fun _ s => .ok (.ok ⟨0x2008⟩, s)⟩

theorem staleMem_root_absent : ∀ i < 512, walkStep staleMem zeroMapper.l4 i = none := by
  intro i hi
  rw [walkStep_eq_none_iff]
  have h1 : slotAddr zeroMapper.l4 i ≠ 0x2000 := by simp [slotAddr, zeroMapper]; omega
  have h2 : slotAddr zeroMapper.l4 i ≠ 0x4000 := by simp [slotAddr, zeroMapper]; omega
  have h3 : slotAddr zeroMapper.l4 i ≠ 0x5000 := by simp [slotAddr, zeroMapper]; omega
  simp [staleMem, h1, h2, h3]

/-- With an allocator that returns a frame that is not a table but is not page-aligned either, `map_page` of an
unmapped page in a tree-shaped hierarchy with no huge page reports the page already mapped: it zeroed
`[0x2008, 0x3008)` but walked into the table at `0x2000`, whose first word is stale. -/
theorem mapPage_unaligned_reports_mapped :
    TreeShaped staleMem zeroMapper.l4 ∧ NoHugeOnWalk staleMem zeroMapper.l4 (pageKey 0) ∧
      (∀ mem s f s', unalignedAlloc.allocateFrame mem s = .ok (.ok f, s') → ¬ IsTable mem zeroMapper.l4 f) ∧
      translateKey staleMem zeroMapper.l4 (pageKey 0) = none ∧
      ∃ mem' s', zeroMapper.mapPage unalignedAlloc ⟨0⟩ ⟨0x7000⟩ .present staleMem () =
        .ok (.error .PageAlreadyMapped, mem', s') := by
  refine ⟨(wellFormed_of_root_absent staleMem_root_absent (by decide)).1.tree, noHugeOnWalk_of_root_absent staleMem_root_absent _,
    ?_, descend_of_root_absent staleMem_root_absent (keyPath_valid _) (by simp [keyPath]), _, _, rfl⟩
  rintro mem s f s' h ht
  cases h
  have := ht.aligned zeroMapper.l4_aligned
  revert this
  decide

end Ithaca
