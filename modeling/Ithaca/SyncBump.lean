import Ithaca.Vmm

/-!
# The compare-and-swap region allocator

`SyncBumpAllocator::allocate_region` loads the cursor, then loops: it computes `end` from its `start` as the single-core
allocator does and tries `compare_exchange_weak(start, end)`, which on failure hands back the cursor's current value.
Any number of calls run at once as an interleaving of their atomic steps (`SyncStep`), and a ghost log `lin` records
each call at its linearization point. `syncBump_linearizable`: in every reachable state the log holds every call that
has returned, once each, and `BumpAllocator::allocate_region` run on their requests in the log's order gives exactly
their results, so the `Ok` regions are disjoint and inside the window.
-/

namespace Ithaca

/-- Where one call of `SyncBumpAllocator::allocate_region` is. -/
inductive CallState
  /-- Called; the initial `load` not yet taken. -/
  | start
  /-- Holding `start` and the `end` computed from it, about to try `compare_exchange_weak(start, end)`. -/
  | cas (start stop : Page)
  /-- Returned. -/
  | done (r : Except VirtAllocError PageRange)

/-- One round of the loop from `start`: `forward_checked` and the bound check, which return the error, or the
compare-exchange to try next. -/
def loopBody (full : PageRange) (pages : NonZeroUsize) (start : Page) : CallState :=
  match start.forwardChecked pages.get with
  | none => .done (.error .VirtualAddressSpaceExhausted)
  | some stop =>
    if full.stop.addr < stop.addr then .done (.error .VirtualAddressSpaceExhausted) else .cas start stop

/-- The shared cursor (`pos: Atomic<Page>`), every call's state, and the ghost linearization log. -/
structure SyncRun where
  pos : Page
  calls : Nat → CallState
  lin : List (Nat × Except VirtAllocError PageRange)

/-- Log call `i` if its new state is a return. -/
def logReturn (i : Nat) : CallState → List (Nat × Except VirtAllocError PageRange) →
    List (Nat × Except VirtAllocError PageRange)
  | .done r, lin => lin ++ [(i, r)]
  | _, lin => lin

section Steps

variable (full : PageRange) (req : Nat → NonZeroUsize)

/-- Call `i` runs a round of the loop from the cursor's current value (after its load, or after a failed exchange
handed that value back), and is logged if the round returns. -/
def SyncRun.round (s : SyncRun) (i : Nat) : SyncRun :=
  ⟨s.pos, Function.update s.calls i (loopBody full (req i) s.pos), logReturn i (loopBody full (req i) s.pos) s.lin⟩

/-- Call `i`'s exchange from `st` to `en` succeeds: the cursor holds `en`, and the call returns `st..en`. -/
def SyncRun.exchange (s : SyncRun) (i : Nat) (st en : Page) : SyncRun :=
  ⟨en, Function.update s.calls i (.done (.ok ⟨st, en⟩)), logReturn i (.done (.ok ⟨st, en⟩)) s.lin⟩

/-- One atomic step of one call `i`, on the window `full`, where call `i` asks for `req i` pages. -/
inductive SyncStep : SyncRun → SyncRun → Prop
  /-- `let mut start = self.pos.load(Acquire)`, then the loop's first round. -/
  | load (s : SyncRun) (i : Nat) (h : s.calls i = .start) : SyncStep s (s.round full req i)
  /-- A successful `compare_exchange_weak(start, end)`: the cursor held `start`. -/
  | casOk (s : SyncRun) (i : Nat) (st en : Page) (h : s.calls i = .cas st en) (hpos : s.pos = st) :
      SyncStep s (s.exchange i st en)
  /-- A failed `compare_exchange_weak`, spurious or not: `start = err`, the cursor's value, and the next round. -/
  | casFail (s : SyncRun) (i : Nat) (st en : Page) (h : s.calls i = .cas st en) : SyncStep s (s.round full req i)

/-- Nothing has run: the cursor at the window's start, every call before its load. -/
def SyncRun.init : SyncRun := ⟨full.start, fun _ => .start, []⟩

/-- What holds in every reachable state. -/
structure SyncInv (s : SyncRun) : Prop where
  /-- The logged calls, run one after another, give the logged results and leave the shared cursor. -/
  seq : runRegions (BumpAllocator.new full) (s.lin.map fun e => req e.1) = (s.lin.map (·.2), ⟨full, s.pos⟩)
  /-- Every returned call is logged with its result. -/
  done_mem : ∀ i r, s.calls i = .done r → (i, r) ∈ s.lin
  /-- Every logged call has returned that result. -/
  mem_done : ∀ e ∈ s.lin, s.calls e.1 = .done e.2
  /-- No call is logged twice. -/
  nodup : (s.lin.map (·.1)).Nodup
  /-- A call about to exchange holds a region that fits. -/
  cas_fits : ∀ i st en, s.calls i = .cas st en → st.forwardChecked (req i).get = some en ∧ ¬ full.stop.addr < en.addr

end Steps

namespace SyncAux

/-- Running one more request appends its result. -/
theorem runRegions_append (b : BumpAllocator) (ns : List NonZeroUsize) (n : NonZeroUsize) :
    runRegions b (ns ++ [n]) =
      ((runRegions b ns).1 ++ [((runRegions b ns).2.allocateRegion n).1], ((runRegions b ns).2.allocateRegion n).2) := by
  induction ns generalizing b with
  | nil => rfl
  | cons m ns ih =>
    show runRegions b (m :: (ns ++ [n])) = _
    simp only [runRegions, ih, List.cons_append]

/-- A round that returns is what `allocate_region` returns from the same cursor, which it leaves unchanged. -/
theorem allocateRegion_of_loopBody_done {full : PageRange} {n : NonZeroUsize} {p : Page}
    {r : Except VirtAllocError PageRange} (h : loopBody full n p = .done r) :
    (BumpAllocator.mk full p).allocateRegion n = (r, ⟨full, p⟩) := by
  unfold loopBody at h
  unfold BumpAllocator.allocateRegion
  split at h
  · rename_i hf
    cases h
    simp only [hf]
  · rename_i stop hf
    split at h
    · cases h
      simp only [hf, if_pos ‹_›]
    · cases h

/-- A round that goes on to the exchange holds a region that fits, from the cursor it read. -/
theorem loopBody_cas {full : PageRange} {n : NonZeroUsize} {p st en : Page} (h : loopBody full n p = .cas st en) :
    st = p ∧ st.forwardChecked n.get = some en ∧ ¬ full.stop.addr < en.addr := by
  unfold loopBody at h
  split at h
  · cases h
  · rename_i stop hf
    split at h
    · cases h
    · cases h
      exact ⟨rfl, hf, ‹_›⟩

/-- A successful exchange is what `allocate_region` does from the cursor it found. -/
theorem allocateRegion_of_cas {full : PageRange} {n : NonZeroUsize} {st en : Page}
    (hf : st.forwardChecked n.get = some en) (hle : ¬ full.stop.addr < en.addr) :
    (BumpAllocator.mk full st).allocateRegion n = (.ok ⟨st, en⟩, ⟨full, en⟩) := by
  unfold BumpAllocator.allocateRegion
  simp only [hf, if_neg hle]

/-- The log after call `i` moves to state `c`: one more entry if `c` is a return, the same log otherwise. -/
theorem logReturn_cases (i : Nat) (c : CallState) (lin : List (Nat × Except VirtAllocError PageRange)) :
    (∃ r, c = .done r ∧ logReturn i c lin = lin ++ [(i, r)]) ∨ ((∀ r, c ≠ .done r) ∧ logReturn i c lin = lin) := by
  cases c with
  | done r => exact .inl ⟨r, rfl, rfl⟩
  | start => exact .inr ⟨(fun _ h => nomatch h), rfl⟩
  | cas _ _ => exact .inr ⟨(fun _ h => nomatch h), rfl⟩

end SyncAux

open SyncAux

section Proofs

variable {full : PageRange} {req : Nat → NonZeroUsize}

/-- The initial state satisfies the invariant. -/
theorem syncInv_init : SyncInv full req (SyncRun.init full) :=
  ⟨rfl, (fun _ _ h => nomatch h), (fun _ h => nomatch h), List.nodup_nil, (fun _ _ _ h => nomatch h)⟩

/-- The invariant survives call `i`, which has not returned, moving to state `c` with the cursor moving to `p'`: when
`c` is a return, `allocate_region` from the old cursor gives that result and leaves `p'`; otherwise the cursor stays;
and a `c` about to exchange holds a region that fits. -/
theorem syncInv_update {s : SyncRun} (hi : SyncInv full req s) {i : Nat} (hnd : ∀ r, s.calls i ≠ .done r)
    {c : CallState} {p' : Page}
    (hseq : ∀ r, c = .done r → (BumpAllocator.mk full s.pos).allocateRegion (req i) = (r, ⟨full, p'⟩))
    (hpos : (∀ r, c ≠ .done r) → p' = s.pos)
    (hcas : ∀ st en, c = .cas st en → st.forwardChecked (req i).get = some en ∧ ¬ full.stop.addr < en.addr) :
    SyncInv full req ⟨p', Function.update s.calls i c, logReturn i c s.lin⟩ := by
  have hnot : i ∉ s.lin.map (·.1) := by
    intro hm
    obtain ⟨e, he, rfl⟩ := List.mem_map.1 hm
    exact hnd _ (hi.mem_done e he)
  have hother : ∀ e ∈ s.lin, e.1 ≠ i := fun e he h => hnot (List.mem_map.2 ⟨e, he, h⟩)
  rcases logReturn_cases i c s.lin with ⟨r, rfl, hl⟩ | ⟨hr, hl⟩
  · rw [hl]
    refine ⟨?_, ?_, ?_, ?_, ?_⟩
    · simp only [List.map_append, List.map_cons, List.map_nil, runRegions_append, hi.seq]
      rw [hseq r rfl]
    · intro j r' hj
      dsimp only at hj; rw [Function.update_apply] at hj
      split_ifs at hj with hji
      · cases hj; subst hji; exact List.mem_append_right _ (List.mem_singleton_self _)
      · exact List.mem_append_left _ (hi.done_mem j r' hj)
    · intro e he
      dsimp only; rw [Function.update_apply]
      rcases List.mem_append.1 he with he | he
      · rw [if_neg (hother e he)]; exact hi.mem_done e he
      · rw [List.mem_singleton.1 he, if_pos rfl]
    · rw [List.map_append, List.nodup_append]
      exact ⟨hi.nodup, List.nodup_singleton _, by simpa using hnot⟩
    · intro j st en hj
      dsimp only at hj; rw [Function.update_apply] at hj
      split_ifs at hj
      exact hi.cas_fits j st en hj
  · rw [hl, hpos hr]
    refine ⟨hi.seq, ?_, ?_, hi.nodup, ?_⟩
    · intro j r' hj
      dsimp only at hj; rw [Function.update_apply] at hj
      split_ifs at hj with hji
      · exact absurd hj (hr r')
      · exact hi.done_mem j r' hj
    · intro e he
      dsimp only; rw [Function.update_apply, if_neg (hother e he)]
      exact hi.mem_done e he
    · intro j st en hj
      dsimp only at hj; rw [Function.update_apply] at hj
      split_ifs at hj with hji
      · subst hji; exact hcas st en hj
      · exact hi.cas_fits j st en hj

/-- A round from the cursor (after the load or a failed exchange) keeps the invariant. -/
theorem syncInv_round {s : SyncRun} (hi : SyncInv full req s) {i : Nat} (hnd : ∀ r, s.calls i ≠ .done r) :
    SyncInv full req (s.round full req i) :=
  syncInv_update hi hnd (fun _ h => allocateRegion_of_loopBody_done h) (fun _ => rfl)
    (fun _ _ h => (loopBody_cas h).2)

/-- Every atomic step keeps the invariant. -/
theorem syncInv_step {s s' : SyncRun} (hi : SyncInv full req s) (h : SyncStep full req s s') :
    SyncInv full req s' := by
  cases h with
  | load i hs => exact syncInv_round hi (by rw [hs]; exact fun _ h => nomatch h)
  | casFail i st en hs => exact syncInv_round hi (by rw [hs]; exact fun _ h => nomatch h)
  | casOk i st en hs hpos =>
    obtain ⟨hf, hle⟩ := hi.cas_fits i st en hs
    refine syncInv_update hi (by rw [hs]; exact fun _ h => nomatch h) ?_ (fun hr => absurd rfl (hr _))
      (fun _ _ h => nomatch h)
    intro r hr
    cases hr
    rw [hpos, allocateRegion_of_cas hf hle]

/-- The invariant holds in every state an interleaving reaches. -/
theorem syncInv_reachable {s : SyncRun} (h : Relation.ReflTransGen (SyncStep full req) (SyncRun.init full) s) :
    SyncInv full req s := by
  induction h with
  | refl => exact syncInv_init
  | tail _ hst ih => exact syncInv_step ih hst

/-- Log entry `e`'s region, if it is `Ok`, ends at or before log entry `e'`'s, if that is `Ok`, starts. -/
def okBefore (e e' : Nat × Except VirtAllocError PageRange) : Prop :=
  ∀ g g', e.2 = .ok g → e'.2 = .ok g' → g.stop.addr.toNat ≤ g'.start.addr.toNat

/-- The `Ok` regions of a run from a fresh allocator, read off the log: each lies in the window, and any two logged
calls' regions are disjoint. -/
theorem lin_ok_disjoint (lin : List (Nat × Except VirtAllocError PageRange))
    (hseq : (runRegions (BumpAllocator.new full) (lin.map fun e => req e.1)).1 = lin.map (·.2)) :
    (∀ e ∈ lin, ∀ g, e.2 = .ok g →
      full.start.addr.toNat ≤ g.start.addr.toNat ∧ g.start.addr.toNat < g.stop.addr.toNat ∧
        g.stop.addr.toNat ≤ full.stop.addr.toNat) ∧
    lin.Pairwise okBefore := by
  obtain ⟨-, hcons, -, hin⟩ := runRegions_consecutive (BumpAllocator.new full) (lin.map fun e => req e.1)
  rw [hseq] at hcons hin
  obtain ⟨hge, hpw⟩ := Consecutive.pairwise hcons (fun g hg => (hin g hg).1)
  have hmem : ∀ e ∈ lin, ∀ g, e.2 = .ok g → g ∈ okRegions (lin.map (·.2)) := by
    intro e he g hg
    simp only [okRegions, List.mem_filterMap, List.mem_map]
    exact ⟨_, ⟨e, he, rfl⟩, by rw [hg]⟩
  refine ⟨fun e he g hg => ⟨hge g (hmem e he g hg), (hin g (hmem e he g hg)).1, (hin g (hmem e he g hg)).2⟩, ?_⟩
  simp only [okRegions, List.filterMap_map] at hpw
  refine (List.pairwise_filterMap.1 hpw).imp ?_
  intro e e' h g g' hg hg'
  exact h g (by simp only [Function.comp, hg]; rfl) g' (by simp only [Function.comp, hg']; rfl)

end Proofs

/-- Linearizability of `SyncBumpAllocator::allocate_region`: in every state an interleaving of any number of calls
reaches, the log lists each returned call once; `BumpAllocator::allocate_region` run on their requests in that order
returns what each returned and leaves the shared cursor; and the `Ok` regions are disjoint and inside the window. -/
theorem syncBump_linearizable (full : PageRange) (req : Nat → NonZeroUsize) (s : SyncRun)
    (h : Relation.ReflTransGen (SyncStep full req) (SyncRun.init full) s) :
    (∀ i r, s.calls i = .done r → (i, r) ∈ s.lin) ∧
    (∀ e ∈ s.lin, s.calls e.1 = .done e.2) ∧
    (s.lin.map (·.1)).Nodup ∧
    runRegions (BumpAllocator.new full) (s.lin.map fun e => req e.1) = (s.lin.map (·.2), ⟨full, s.pos⟩) ∧
    (∀ i g, s.calls i = .done (.ok g) →
      full.start.addr.toNat ≤ g.start.addr.toNat ∧ g.start.addr.toNat < g.stop.addr.toNat ∧
        g.stop.addr.toNat ≤ full.stop.addr.toNat) ∧
    (∀ i j g g', i ≠ j → s.calls i = .done (.ok g) → s.calls j = .done (.ok g') →
      g.stop.addr.toNat ≤ g'.start.addr.toNat ∨ g'.stop.addr.toNat ≤ g.start.addr.toNat) := by
  have hi := syncInv_reachable h
  obtain ⟨hwin, hpw⟩ := @lin_ok_disjoint full req s.lin (by rw [hi.seq])
  refine ⟨hi.done_mem, hi.mem_done, hi.nodup, hi.seq, fun i g hg => hwin _ (hi.done_mem i _ hg) g rfl, ?_⟩
  intro i j g g' hij hg hg'
  have hsym : s.lin.Pairwise fun e e' => okBefore e e' ∨ okBefore e' e := hpw.imp Or.inl
  rcases hsym.forall (fun _ _ h => h.symm) (hi.done_mem i _ hg) (hi.done_mem j _ hg')
    (fun he => hij (congrArg Prod.fst he)) with h1 | h1
  · exact .inl (h1 g g' rfl rfl)
  · exact .inr (h1 g' g rfl rfl)

/-- The window of the race below: three pages from address zero. -/
def raceWindow : PageRange := ⟨⟨0⟩, ⟨0x3000⟩⟩

/-- Every call of the race asks for one page. -/
def raceReq : Nat → NonZeroUsize := fun _ => ⟨1, by decide⟩

/-- Calls 0 and 1 both load the cursor, call 0's exchange succeeds, call 1's fails and its next round takes the
following page. -/
def raceRun : SyncRun :=
  ((((SyncRun.init raceWindow).round raceWindow raceReq 0).round raceWindow raceReq 1).exchange 0 ⟨0⟩ ⟨0x1000⟩).round
    raceWindow raceReq 1

/-- `syncBump_linearizable` on the race: the run is an interleaving of the calls' atomic steps. -/
theorem syncBump_linearizable_race :
    Relation.ReflTransGen (SyncStep raceWindow raceReq) (SyncRun.init raceWindow) raceRun ∧
    ((∀ i r, raceRun.calls i = .done r → (i, r) ∈ raceRun.lin) ∧
    (∀ e ∈ raceRun.lin, raceRun.calls e.1 = .done e.2) ∧
    (raceRun.lin.map (·.1)).Nodup ∧
    runRegions (BumpAllocator.new raceWindow) (raceRun.lin.map fun e => raceReq e.1) =
      (raceRun.lin.map (·.2), ⟨raceWindow, raceRun.pos⟩) ∧
    (∀ i g, raceRun.calls i = .done (.ok g) →
      raceWindow.start.addr.toNat ≤ g.start.addr.toNat ∧ g.start.addr.toNat < g.stop.addr.toNat ∧
        g.stop.addr.toNat ≤ raceWindow.stop.addr.toNat) ∧
    (∀ i j g g', i ≠ j → raceRun.calls i = .done (.ok g) → raceRun.calls j = .done (.ok g') →
      g.stop.addr.toNat ≤ g'.start.addr.toNat ∨ g'.stop.addr.toNat ≤ g.start.addr.toNat)) :=
  have h : Relation.ReflTransGen (SyncStep raceWindow raceReq) (SyncRun.init raceWindow) raceRun :=
    .tail (.tail (.tail (.tail .refl (.load (SyncRun.init raceWindow) 0 rfl)) (.load _ 1 rfl))
      (.casOk _ 0 ⟨0⟩ ⟨0x1000⟩ rfl rfl)) (.casFail _ 1 ⟨0⟩ ⟨0x1000⟩ rfl)
  ⟨h, syncBump_linearizable raceWindow raceReq raceRun h⟩

end Ithaca
