import Mathlib.Logic.Relation

/-!
# Interrupt masking and the spinlocks

`interrupts::without(f)` runs `f` with IF clear, executing `cli` and, on return, `sti` only when IF was set;
`Spinlock::lock(f)` is `without` around the `SpinMutex`. The model is a machine of call frames (`Step`): a call pushes
a frame that records what its return undoes, an interrupt arriving while IF is set pushes a handler's frame, and a
finished frame returns. Every reachable configuration keeps `StackOk` (`reach_maskInv`), so IF is clear while a lock is
held and no lock is held below a handler (`spinlock_masks_interrupts`); the kernel's three spinlocks follow a rank
order (`RankOk`), with `GLOBAL` taken only inside `KERNEL`.
-/

namespace Ithaca

namespace Interrupts

/-! ## Programs and the machine -/

/-- Code of the single core, as the interrupt flag and the spinlocks see it: an instruction that is neither (`op`), a
call `interrupts::without(|| body)`, or a call `l.lock(|_| body)` of `Spinlock::lock`. No body executes `sti` or `cli`
of its own. -/
inductive Code (L : Type) where
  | op
  | without (body : List (Code L))
  | lock (l : L) (body : List (Code L))

/-- A call that has not returned: the rest of its body, the lock its return releases, whether its return executes `sti`
(the `IrqGuard` of `without`, or a handler's `iretq`), and as ghost state the IF at the call and whether it is a
handler's. -/
structure CallFrame (L : Type) where
  rest : List (Code L)
  lock : Option L
  sti : Bool
  entry : Bool
  irq : Bool

/-- The core: the interrupt flag IF and the calls that have not returned, innermost first. -/
structure Config (L : Type) where
  ifl : Bool
  stack : List (CallFrame L)

variable {L : Type}

/-- The locks held by the frames `st`, innermost first. -/
def heldOf (st : List (CallFrame L)) : List L := st.filterMap CallFrame.lock

/-- No frame of `st` executes `sti` on its return. -/
def noSti (st : List (CallFrame L)) : Bool := st.all fun fr => !fr.sti

/-- One step of the core. `without` and `lock` clear IF and push a frame whose return executes `sti` exactly when IF
was set; `lock` spins while its lock is held, so it steps only when the lock is free. A frame whose body is done
returns: it releases its lock and, if it executes `sti`, sets IF. When IF is set an interrupt may enter a handler body
of `H`, with IF clear. -/
inductive Step (H : List (Code L) → Prop) : Config L → Config L → Prop
  | op {ifl : Bool} {fr : CallFrame L} {cs st} : fr.rest = .op :: cs →
      Step H ⟨ifl, fr :: st⟩ ⟨ifl, { fr with rest := cs } :: st⟩
  | without {ifl : Bool} {fr : CallFrame L} {b cs st} : fr.rest = .without b :: cs →
      Step H ⟨ifl, fr :: st⟩ ⟨false, ⟨b, none, ifl, ifl, false⟩ :: { fr with rest := cs } :: st⟩
  | lock {ifl : Bool} {fr : CallFrame L} {l b cs st} : fr.rest = .lock l b :: cs → l ∉ heldOf (fr :: st) →
      Step H ⟨ifl, fr :: st⟩ ⟨false, ⟨b, some l, ifl, ifl, false⟩ :: { fr with rest := cs } :: st⟩
  | ret {ifl : Bool} {fr : CallFrame L} {st} : fr.rest = [] → Step H ⟨ifl, fr :: st⟩ ⟨fr.sti || ifl, st⟩
  | irq {st} {h : List (Code L)} : H h → Step H ⟨true, st⟩ ⟨false, ⟨h, none, true, true, true⟩ :: st⟩

/-- The core about to run the program `p` with IF `i`. -/
def Config.init (i : Bool) (p : List (Code L)) : Config L := ⟨i, [⟨p, none, false, i, false⟩]⟩

/-- The configurations reachable from running `p` with IF `i`, with the handler bodies `H`. -/
def Reach (H : List (Code L) → Prop) (i : Bool) (p : List (Code L)) : Config L → Prop :=
  Relation.ReflTransGen (Step H) (Config.init i p)

/-! ## The masking invariant -/

/-- What the machine keeps of a frame `fr` above the frames `post`, over the IF `i` of the bottom: its ghost entry IF
is `i` unless a frame below it sets IF on return; a frame whose return executes `sti` was entered with IF set and
nothing held below it; a lock's frame executes `sti` exactly when it was entered with IF set; a handler's frame
executes `sti`. -/
structure FrameOk (i : Bool) (fr : CallFrame L) (post : List (CallFrame L)) : Prop where
  entry : fr.entry = (i && noSti post)
  sti_entry : fr.sti = true → fr.entry = true
  lock_sti : fr.lock.isSome → fr.sti = fr.entry
  sti_free : fr.sti = true → heldOf post = []
  irq_sti : fr.irq = true → fr.sti = true

/-- Every frame of the stack is `FrameOk` over the frames below it. -/
def StackOk (i : Bool) : List (CallFrame L) → Prop
  | [] => True
  | fr :: post => FrameOk i fr post ∧ StackOk i post

/-- The machine's invariant: IF is the bottom's unless a frame of the stack sets it on return, and the stack is
`StackOk`. -/
structure MaskInv (i : Bool) (c : Config L) : Prop where
  ifl : c.ifl = (i && noSti c.stack)
  stack : StackOk i c.stack

@[simp] theorem noSti_cons (fr : CallFrame L) (st : List (CallFrame L)) : noSti (fr :: st) = (!fr.sti && noSti st) :=
  rfl

@[simp] theorem heldOf_cons (fr : CallFrame L) (st : List (CallFrame L)) :
    heldOf (fr :: st) = fr.lock.toList ++ heldOf st := by
  cases h : fr.lock <;> simp [heldOf, List.filterMap_cons, h]

/-- With IF set no lock is held. -/
theorem StackOk.heldOf_eq_nil {i : Bool} : ∀ {st : List (CallFrame L)}, StackOk i st → (i && noSti st) = true →
    heldOf st = []
  | [], _, _ => rfl
  | fr :: post, ⟨hfr, hpost⟩, h => by
    simp only [noSti_cons, Bool.and_eq_true, Bool.not_eq_true'] at h
    obtain ⟨hi, hsti, hpost'⟩ := h
    have hl : fr.lock = none := by
      cases hlk : fr.lock with
      | none => rfl
      | some l =>
        have := hfr.lock_sti (by simp [hlk])
        rw [hfr.entry, hsti, hi, hpost'] at this
        cases this
    rw [heldOf_cons, hl, StackOk.heldOf_eq_nil hpost (by rw [hi, hpost']; rfl)]
    rfl

/-- The machine keeps nothing of the rest of a frame's body. -/
theorem FrameOk.setRest {i : Bool} {fr : CallFrame L} {post : List (CallFrame L)} (h : FrameOk i fr post)
    (cs : List (Code L)) : FrameOk i { fr with rest := cs } post :=
  ⟨h.entry, h.sti_entry, h.lock_sti, h.sti_free, h.irq_sti⟩

/-- The machine keeps nothing of the rest of the innermost frame's body. -/
theorem MaskInv.setRest {i ifl : Bool} {fr : CallFrame L} {st : List (CallFrame L)} (h : MaskInv i ⟨ifl, fr :: st⟩)
    (cs : List (Code L)) : MaskInv i ⟨ifl, { fr with rest := cs } :: st⟩ :=
  ⟨h.ifl, h.stack.1.setRest cs, h.stack.2⟩

/-- A frame below frames `pre` keeps what the machine keeps of it. -/
theorem StackOk.of_append {i : Bool} : ∀ {pre st : List (CallFrame L)}, StackOk i (pre ++ st) → StackOk i st
  | [], _, h => h
  | _ :: _, _, ⟨_, h⟩ => StackOk.of_append h

variable {i : Bool}

theorem MaskInv.heldOf_eq_nil {c : Config L} (h : MaskInv i c) (hif : c.ifl = true) : heldOf c.stack = [] :=
  h.stack.heldOf_eq_nil (h.ifl ▸ hif)

/-- A call or an interrupt pushes a frame entered with the current IF, that executes `sti` on return exactly when IF
was set, and clears IF. -/
theorem MaskInv.push {ifl : Bool} {st : List (CallFrame L)} (h : MaskInv i ⟨ifl, st⟩) (b : List (Code L))
    (lk : Option L) (q : Bool) (hq : q = true → ifl = true) : MaskInv i ⟨false, ⟨b, lk, ifl, ifl, q⟩ :: st⟩ := by
  have hifl : ifl = (i && noSti st) := h.ifl
  refine ⟨?_, ⟨hifl, id, fun _ => rfl, fun hs => h.heldOf_eq_nil hs, hq⟩, h.stack⟩
  cases ifl <;> simp [hifl.symm]

/-- A frame's return leaves the IF it was entered with. -/
theorem MaskInv.ret_ifl {ifl : Bool} {fr : CallFrame L} {st : List (CallFrame L)} (h : MaskInv i ⟨ifl, fr :: st⟩) :
    (fr.sti || ifl) = fr.entry := by
  have hfr := h.stack.1
  have hifl : ifl = (i && (!fr.sti && noSti st)) := h.ifl
  cases hs : fr.sti
  · simp [hifl, hs, hfr.entry]
  · simp [hfr.sti_entry hs]

/-- Every step keeps the invariant. -/
theorem Step.maskInv {H : List (Code L) → Prop} {c c' : Config L} (hs : Step H c c') (h : MaskInv i c) :
    MaskInv i c' := by
  cases hs with
  | @op _ _ cs _ _ => exact h.setRest cs
  | @without _ _ b cs _ _ => exact (h.setRest cs).push b none false nofun
  | @lock _ _ l b cs _ _ _ => exact (h.setRest cs).push b (some l) false nofun
  | ret _ => exact ⟨(h.ret_ifl).trans h.stack.1.entry, h.stack.2⟩
  | irq _ => exact h.push _ none true fun _ => rfl

theorem maskInv_init (p : List (Code L)) : MaskInv i (Config.init i p) :=
  ⟨by simp [Config.init, noSti], ⟨by simp [noSti], nofun, nofun, nofun, nofun⟩, trivial⟩

/-- Every reachable configuration keeps the invariant. -/
theorem reach_maskInv {H : List (Code L) → Prop} {p : List (Code L)} {c : Config L} (hc : Reach H i p c) :
    MaskInv i c := by
  induction hc with
  | refl => exact maskInv_init p
  | tail _ hs ih => exact hs.maskInv ih

/-! ## Lock order -/

/-- `LocksAbove rank r cs`: every lock the code `cs` takes, at any depth, has a rank above that of the innermost lock
taken around it, and above `r` at the top. -/
inductive LocksAbove (rank : L → Nat) : Nat → List (Code L) → Prop
  | nil {r : Nat} : LocksAbove rank r []
  | op {r : Nat} {cs : List (Code L)} : LocksAbove rank r cs → LocksAbove rank r (.op :: cs)
  | without {r : Nat} {b cs : List (Code L)} : LocksAbove rank r b → LocksAbove rank r cs →
      LocksAbove rank r (.without b :: cs)
  | lock {r : Nat} {l : L} {b cs : List (Code L)} : r < rank l → LocksAbove rank (rank l) b → LocksAbove rank r cs →
      LocksAbove rank r (.lock l b :: cs)

/-- The rank of the innermost lock the frames `st` hold, or `0`. -/
def topRank (rank : L → Nat) (st : List (CallFrame L)) : Nat := ((heldOf st).head?.map rank).getD 0

/-- What ranked code keeps of a frame above the frames `post`: the rest of its body takes only locks above the
innermost lock held at or below it, and the lock it holds is above every lock held below it. -/
structure FrameRanked (rank : L → Nat) (fr : CallFrame L) (post : List (CallFrame L)) : Prop where
  rest : LocksAbove rank (topRank rank (fr :: post)) fr.rest
  lock : ∀ l, fr.lock = some l → ∀ l' ∈ heldOf post, rank l' < rank l

/-- Every frame of the stack is `FrameRanked` over the frames below it. -/
def RankOk (rank : L → Nat) : List (CallFrame L) → Prop
  | [] => True
  | fr :: post => FrameRanked rank fr post ∧ RankOk rank post

variable {rank : L → Nat}

@[simp] theorem topRank_cons_none {fr : CallFrame L} (h : fr.lock = none) (st : List (CallFrame L)) :
    topRank rank (fr :: st) = topRank rank st := by
  simp [topRank, h]

/-- The innermost held lock has the highest rank. -/
theorem RankOk.le_topRank : ∀ {st : List (CallFrame L)}, RankOk rank st → ∀ l ∈ heldOf st, rank l ≤ topRank rank st
  | [], _, _, hl => by simp [heldOf] at hl
  | fr :: post, ⟨hfr, hpost⟩, l, hl => by
    cases hlk : fr.lock with
    | none =>
      rw [heldOf_cons, hlk] at hl
      rw [topRank_cons_none hlk]
      exact hpost.le_topRank l (by simpa using hl)
    | some l0 =>
      rw [heldOf_cons, hlk] at hl
      have htop : topRank rank (fr :: post) = rank l0 := by simp [topRank, hlk]
      rw [htop]
      rcases List.mem_append.1 hl with hl | hl
      · simp only [Option.toList_some, List.mem_singleton] at hl
        exact hl ▸ Nat.le_refl _
      · exact Nat.le_of_lt (hfr.lock l0 hlk l hl)

/-- The held locks, innermost first, are in strictly decreasing rank. -/
theorem RankOk.pairwise : ∀ {st : List (CallFrame L)}, RankOk rank st →
    (heldOf st).Pairwise fun inner outer => rank outer < rank inner
  | [], _ => List.Pairwise.nil
  | fr :: post, ⟨hfr, hpost⟩ => by
    rw [heldOf_cons]
    cases hlk : fr.lock with
    | none => simpa using hpost.pairwise
    | some l => exact List.pairwise_cons.2 ⟨hfr.lock l hlk, hpost.pairwise⟩

/-- At a lock instruction, every held lock is below the lock taken. -/
theorem RankOk.lt_of_lock {fr : CallFrame L} {st : List (CallFrame L)} {l : L} {b cs : List (Code L)}
    (h : RankOk rank (fr :: st)) (hr : fr.rest = .lock l b :: cs) : ∀ l' ∈ heldOf (fr :: st), rank l' < rank l := by
  have hla := h.1.rest
  rw [hr] at hla
  cases hla with
  | lock hlt _ _ => exact fun l' hl' => Nat.lt_of_le_of_lt (h.le_topRank l' hl') hlt

/-- Every step of ranked code, with ranked handlers, keeps the stack ranked. -/
theorem Step.rankOk {H : List (Code L) → Prop} (hH : ∀ h, H h → LocksAbove rank 0 h) {c c' : Config L}
    (hs : Step H c c') (hm : MaskInv i c) (h : RankOk rank c.stack) : RankOk rank c'.stack := by
  cases hs with
  | op hr =>
    have hla := h.1.rest
    rw [hr] at hla
    cases hla with
    | op hcs => exact ⟨⟨hcs, h.1.lock⟩, h.2⟩
  | without hr =>
    have hla := h.1.rest
    rw [hr] at hla
    cases hla with
    | without hb hcs => exact ⟨⟨by rw [topRank_cons_none rfl]; exact hb, nofun⟩, ⟨hcs, h.1.lock⟩, h.2⟩
  | lock hr _ =>
    rename_i l b cs _
    have hlt := h.lt_of_lock hr
    have hla := h.1.rest
    rw [hr] at hla
    cases hla with
    | lock _ hb hcs =>
      refine ⟨⟨by simpa [topRank] using hb, fun l' hl' => ?_⟩, ⟨hcs, h.1.lock⟩, h.2⟩
      cases hl'
      exact hlt
  | ret _ => exact h.2
  | irq hh =>
    rename_i st _
    have hnil : topRank rank st = 0 := by simp [topRank, hm.heldOf_eq_nil rfl]
    exact ⟨⟨by rw [topRank_cons_none rfl, hnil]; exact hH _ hh, nofun⟩, h⟩

/-- Every configuration reachable from ranked code, with ranked handlers, has a ranked stack. -/
theorem reach_rankOk {H : List (Code L) → Prop} {p : List (Code L)} (hH : ∀ h, H h → LocksAbove rank 0 h)
    (hp : LocksAbove rank 0 p) {c : Config L} (hc : Reach H i p c) : RankOk rank c.stack := by
  induction hc with
  | refl => exact ⟨⟨by simpa [topRank, Config.init] using hp, nofun⟩, trivial⟩
  | tail hr hs ih => exact hs.rankOk hH (reach_maskInv hr) ih

/-! ## The kernel's spinlocks -/

/-- The kernel's spinlocks: `KERNEL` (the kernel address space), `GLOBAL` (the pmm) and the global allocator's
`inner`. -/
inductive CoreLock
  | kernel
  | global
  | allocator
deriving DecidableEq, Repr

/-- The order the kernel takes its spinlocks in: `GLOBAL` inside `KERNEL`, and the allocator's alone. -/
def coreRank : CoreLock → Nat
  | .kernel => 1
  | .global => 2
  | .allocator => 1

/-- `Global::allocate_frame` and `Global::deallocate_frame` (`pmm.rs`): `GLOBAL.lock` around the work on the pmm's
state, which takes no lock. -/
def pmmCall : Code CoreLock := .lock .global [.op]

/-- A step of the closure that `with_kernel_address_space` runs: the address space's own work, or a call of the pmm
(`map_page`'s `allocate_frame`, the `deallocate_frame` of `allocate`'s drop guards). -/
inductive AddrSpaceStep
  | work
  | pmm

/-- The code of a step of the address space. -/
def AddrSpaceStep.code : AddrSpaceStep → Code CoreLock
  | .work => .op
  | .pmm => pmmCall

/-- `with_kernel_address_space(f)` (`address_space.rs`): `KERNEL.lock` around `f`, on the inner address space that
`with_limine` builds on first use. -/
def withKernelAddressSpace (steps : List AddrSpaceStep) : Code CoreLock :=
  .lock .kernel (steps.map AddrSpaceStep.code)

/-- `alloc` and `dealloc` of the global allocator, and the end of `kernel_alloc::init` (`kernel_alloc.rs`):
`ALLOCATOR.inner.lock` around talc's work, which takes no lock. -/
def allocatorCall : Code CoreLock := .lock .allocator [.op]

/-- A piece of the kernel's code: work that takes no spinlock, or a call into the kernel address space, the pmm or the
global allocator. -/
inductive CoreCall
  | work
  | addrSpace (steps : List AddrSpaceStep)
  | pmm
  | allocator

/-- The code of a piece of the kernel. -/
def CoreCall.code : CoreCall → Code CoreLock
  | .work => .op
  | .addrSpace steps => withKernelAddressSpace steps
  | .pmm => pmmCall
  | .allocator => allocatorCall

/-- The kernel's code takes its spinlocks in rank order. -/
theorem coreCalls_locksAbove : ∀ cs : List CoreCall, LocksAbove coreRank 0 (cs.map CoreCall.code)
  | [] => .nil
  | c :: cs => by
    have hpmm : ∀ {r : Nat} {rest : List (Code CoreLock)}, r < 2 → LocksAbove coreRank r rest →
        LocksAbove coreRank r (pmmCall :: rest) := fun hr h => .lock hr (.op .nil) h
    have hsteps : ∀ ss : List AddrSpaceStep, LocksAbove coreRank 1 (ss.map AddrSpaceStep.code) := by
      intro ss
      induction ss with
      | nil => exact .nil
      | cons s ss ih => cases s with
        | work => exact .op ih
        | pmm => exact hpmm (by decide) ih
    have ih := coreCalls_locksAbove cs
    cases c with
    | work => exact .op ih
    | addrSpace steps => exact .lock (by decide) (hsteps steps) ih
    | pmm => exact hpmm (by decide) ih
    | allocator => exact .lock (by decide) (.op .nil) ih

/-! ## Masking and lock order over every run -/

/-- Over every run of any code, with any handlers and any IF at the start: IF is clear whenever a lock is held, every
call returns with the IF it was entered with, and no lock is held below a handler's frame. Over every run of the
kernel's code, the held locks are in strictly decreasing rank and none is taken while held, so `GLOBAL` is only ever
taken inside `KERNEL`. -/
theorem spinlock_masks_interrupts :
    (∀ {L : Type} (H : List (Code L) → Prop) (i : Bool) (p : List (Code L)) (c : Config L), Reach H i p c →
      (heldOf c.stack ≠ [] → c.ifl = false) ∧
      (∀ c', Step H c c' → c'.stack.length < c.stack.length → ∃ fr, c.stack = fr :: c'.stack ∧ c'.ifl = fr.entry) ∧
      (∀ (pre : List (CallFrame L)) (fr : CallFrame L) post, c.stack = pre ++ fr :: post → fr.irq = true →
        heldOf post = [])) ∧
    (∀ (H : List (Code CoreLock) → Prop) (i : Bool) (p : List CoreCall) (c : Config CoreLock),
      (∀ h, H h → ∃ q : List CoreCall, h = q.map CoreCall.code) → Reach H i (p.map CoreCall.code) c →
      (heldOf c.stack).Pairwise (fun inner outer => coreRank outer < coreRank inner) ∧
      ∀ fr l b cs st, c.stack = fr :: st → fr.rest = .lock l b :: cs →
        l ∉ heldOf c.stack ∧ (l = .kernel → heldOf c.stack = [])) := by
  refine ⟨fun H i p c hc => ⟨fun hne => ?_, fun c' hs hlen => ?_, fun pre fr post hst hirq => ?_⟩,
    fun H i p c hH hc => ?_⟩
  · exact Bool.eq_false_iff.2 fun hif => hne ((reach_maskInv hc).heldOf_eq_nil hif)
  · have hm := reach_maskInv hc
    cases hs with
    | ret _ => exact ⟨_, rfl, hm.ret_ifl⟩
    | _ => exact absurd hlen (by simp only [List.length_cons]; omega)
  · have hs : StackOk i (pre ++ fr :: post) := hst ▸ (reach_maskInv hc).stack
    have hfr := (StackOk.of_append hs).1
    exact hfr.sti_free (hfr.irq_sti hirq)
  · have hr := reach_rankOk (fun h hh => by obtain ⟨q, rfl⟩ := hH h hh; exact coreCalls_locksAbove q)
      (coreCalls_locksAbove p) hc
    refine ⟨hr.pairwise, fun fr l b cs st hst hrest => ?_⟩
    rw [hst] at hr ⊢
    have hlt := hr.lt_of_lock hrest
    refine ⟨fun hl => Nat.lt_irrefl _ (hlt l hl), fun hk => ?_⟩
    subst hk
    exact List.eq_nil_iff_forall_not_mem.2 fun l' hl' => by
      have := hlt l' hl'
      cases l' <;> simp [coreRank] at this

/-- The kernel inside the pmm's `GLOBAL`, within `KERNEL`: where the address space, called with IF set, calls the pmm. -/
def kernelPmmConfig : Config CoreLock :=
  ⟨false, [⟨[.op], some .global, false, false, false⟩, ⟨[], some .kernel, true, true, false⟩,
    ⟨[], none, false, true, false⟩]⟩

/-- The address space, called with IF set, reaches the pmm's `GLOBAL` inside `KERNEL`, with a handler that takes no
spinlock. -/
theorem reach_kernelPmmConfig :
    Reach (fun h => h = [.op]) true ([CoreCall.addrSpace [.pmm]].map CoreCall.code) kernelPmmConfig :=
  .tail (.tail .refl (.lock rfl (by decide))) (.lock rfl (by decide))

/-- A call of the address space that calls the pmm, with IF set and a handler that takes no spinlock, reaches
`GLOBAL` inside `KERNEL` with IF clear, the locks held in rank order. -/
theorem spinlock_masks_interrupts_pmm_in_kernel :
    Reach (fun h => h = [.op]) true ([CoreCall.addrSpace [.pmm]].map CoreCall.code) kernelPmmConfig ∧
      heldOf kernelPmmConfig.stack = [.global, .kernel] ∧ kernelPmmConfig.ifl = false ∧
      (heldOf kernelPmmConfig.stack).Pairwise (fun inner outer => coreRank outer < coreRank inner) :=
  ⟨reach_kernelPmmConfig, rfl, (spinlock_masks_interrupts.1 _ _ _ _ reach_kernelPmmConfig).1 (by decide),
    (spinlock_masks_interrupts.2 _ _ _ _ (fun _ hh => ⟨[.work], hh⟩) reach_kernelPmmConfig).1⟩

end Interrupts

end Ithaca
