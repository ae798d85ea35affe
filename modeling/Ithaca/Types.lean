import Mathlib

/-!
# Machine words, frames and pages

`types.rs`: `Frame(PhysAddr(u64))` and `Page(VirtAddr(usize))` name a physical frame and a virtual page by their base
address, and their `Step` implementations step by 4096 bytes with checked arithmetic. `usize` is 64 bits on x86-64, so
both are 64-bit words here (`BitVec 64`), and the two `Step` implementations are one definition on words, applied to
each type.

The kernel is built in the debug profile (`cargo build` in `xtask`), so an overflowing `+`, `-` or `+=` on a machine
word panics, and a panic halts the machine: `Panic` is the outcome of every abort site of the model, with the text the
source gives it.
-/

namespace Ithaca

/-- A Rust panic (`panic!`, `unreachable!`, `todo!`, a failed `assert!` or `expect`, an overflow in a debug build): the
kernel's panic handler prints the message and halts, so a panic ends the run. -/
structure Panic where
  msg : String
deriving DecidableEq, Repr

/-! ## Checked arithmetic on 64-bit words -/

/-- `u64::checked_mul`. -/
def checkedMul (a b : BitVec 64) : Option (BitVec 64) :=
  if a.toNat * b.toNat < 2 ^ 64 then some (a * b) else none

/-- `u64::checked_add`. -/
def checkedAdd (a b : BitVec 64) : Option (BitVec 64) :=
  if a.toNat + b.toNat < 2 ^ 64 then some (a + b) else none

/-- `u64::checked_sub`. -/
def checkedSub (a b : BitVec 64) : Option (BitVec 64) :=
  if b.toNat ≤ a.toNat then some (a - b) else none

/-- `a + b` in a debug build: the sum, or the overflow panic. -/
def addOrPanic (a b : BitVec 64) : Except Panic (BitVec 64) :=
  match checkedAdd a b with
  | some c => .ok c
  | none => .error ⟨"attempt to add with overflow"⟩

/-- `a - b` in a debug build: the difference, or the overflow panic. -/
def subOrPanic (a b : BitVec 64) : Except Panic (BitVec 64) :=
  match checkedSub a b with
  | some c => .ok c
  | none => .error ⟨"attempt to subtract with overflow"⟩

/-- A sum that fits is the sum of the numbers. -/
theorem toNat_add_of_lt {a b : BitVec 64} (h : a.toNat + b.toNat < 2 ^ 64) : (a + b).toNat = a.toNat + b.toNat := by
  rw [BitVec.toNat_add, Nat.mod_eq_of_lt h]

/-- A step of a computation that may panic continues with what the step returned. -/
@[simp] theorem except_ok_bind {ε α β : Type} (a : α) (f : α → Except ε β) : (Except.ok a >>= f) = f a := rfl

@[simp] theorem except_pure_eq_ok {ε α : Type} (a : α) : (pure a : Except ε α) = Except.ok a := rfl

/-- A panic ends the computation. -/
@[simp] theorem except_error_bind {ε α β : Type} (e : ε) (f : α → Except ε β) :
    (Except.error e >>= f) = Except.error e := rfl

theorem addOrPanic_of_lt {a b : BitVec 64} (h : a.toNat + b.toNat < 2 ^ 64) : addOrPanic a b = .ok (a + b) := by
  rw [addOrPanic, checkedAdd, if_pos h]

theorem subOrPanic_of_le {a b : BitVec 64} (h : b.toNat ≤ a.toNat) : subOrPanic a b = .ok (a - b) := by
  rw [subOrPanic, checkedSub, if_pos h]

/-! ## `Step` on addresses -/

namespace Step

/-- `steps_between(start, end)` of both implementations: `end.checked_sub(start).map(|v| v / 4096)` (for `Frame` also
`try_into` from `u64` to `usize`, which cannot fail on a 64-bit target). -/
def stepsBetween (start stop : BitVec 64) : Option (BitVec 64) :=
  (checkedSub stop start).map (· / 4096)

/-- `forward_checked(start, count)`: `count.checked_mul(4096).and_then(|offset| start.checked_add(offset))`. -/
def forwardChecked (start count : BitVec 64) : Option (BitVec 64) :=
  (checkedMul count 4096).bind fun offset => checkedAdd start offset

/-- `backward_checked(start, count)`: `count.checked_mul(4096).and_then(|offset| start.checked_sub(offset))`. -/
def backwardChecked (start count : BitVec 64) : Option (BitVec 64) :=
  (checkedMul count 4096).bind fun offset => checkedSub start offset

/-- `forward_checked` is `start + 4096 * count` when that fits in 64 bits, and `None` otherwise. -/
theorem forwardChecked_eq (start count : BitVec 64) :
    forwardChecked start count =
      if start.toNat + count.toNat * 4096 < 2 ^ 64 then some (start + count * 4096) else none := by
  have h4 : (4096 : BitVec 64).toNat = 4096 := rfl
  unfold forwardChecked checkedMul checkedAdd
  rw [h4]
  by_cases hm : count.toNat * 4096 < 2 ^ 64
  · have hm' : (count * 4096).toNat = count.toNat * 4096 := by bv_omega
    rw [if_pos hm, Option.some_bind, hm']
  · rw [if_neg hm, Option.none_bind, if_neg (by omega)]

/-- `forward_checked` succeeds exactly when `start + 4096 * count` fits, and then returns that sum. -/
theorem forwardChecked_eq_some {start count r : BitVec 64} :
    forwardChecked start count = some r ↔
      start.toNat + count.toNat * 4096 < 2 ^ 64 ∧ r.toNat = start.toNat + count.toNat * 4096 := by
  rw [forwardChecked_eq]
  split
  · simp only [Option.some.injEq]
    constructor
    · rintro rfl; exact ⟨‹_›, by bv_omega⟩
    · rintro ⟨-, h⟩; bv_omega
  · simp only [false_iff, reduceCtorEq]; omega

/-- `forward_checked` fails exactly when `start + 4096 * count` does not fit in 64 bits. -/
theorem forwardChecked_eq_none {start count : BitVec 64} :
    forwardChecked start count = none ↔ 2 ^ 64 ≤ start.toNat + count.toNat * 4096 := by
  rw [forwardChecked_eq]
  split
  · simp only [reduceCtorEq, false_iff]; omega
  · simp only [true_iff]; omega

/-- `steps_between` succeeds exactly when `start <= end`, and counts the whole pages between them. -/
theorem stepsBetween_eq_some {start stop n : BitVec 64} :
    stepsBetween start stop = some n ↔ start.toNat ≤ stop.toNat ∧ n.toNat = (stop.toNat - start.toNat) / 4096 := by
  unfold stepsBetween checkedSub
  split
  · rename_i h
    have hq : ((stop - start) / 4096).toNat = (stop.toNat - start.toNat) / 4096 := by
      rw [BitVec.toNat_udiv, BitVec.toNat_sub_of_le (BitVec.le_def.2 h)]; rfl
    simp only [Option.map_some', Option.some.injEq, h, true_and, ← hq]
    exact ⟨fun e => e ▸ rfl, fun e => (BitVec.eq_of_toNat_eq e).symm⟩
  · simp only [Option.map_none', reduceCtorEq, false_iff, not_and]
    omega

/-- `backward_checked` succeeds exactly when `4096 * count` is at most `start`, and returns the difference. -/
theorem backwardChecked_eq_some {start count r : BitVec 64} :
    backwardChecked start count = some r ↔
      count.toNat * 4096 ≤ start.toNat ∧ r.toNat = start.toNat - count.toNat * 4096 := by
  have h4 : (4096 : BitVec 64).toNat = 4096 := rfl
  unfold backwardChecked checkedMul checkedSub
  rw [h4]
  by_cases hm : count.toNat * 4096 < 2 ^ 64
  · have hm' : (count * 4096).toNat = count.toNat * 4096 := by bv_omega
    rw [if_pos hm, Option.some_bind, hm']
    split
    · rename_i h
      simp only [Option.some.injEq, h, true_and]
      exact ⟨fun e => by bv_omega, fun e => by bv_omega⟩
    · simp only [reduceCtorEq, false_iff, not_and]; omega
  · rw [if_neg hm, Option.none_bind]
    simp only [reduceCtorEq, false_iff, not_and]
    omega

variable {a b n : BitVec 64}

/-- Stepping forward and stepping back are inverse: `forward_checked(a, n) = Some(b)` exactly when
`backward_checked(b, n) = Some(a)`. -/
theorem forwardChecked_iff_backwardChecked : forwardChecked a n = some b ↔ backwardChecked b n = some a := by
  rw [forwardChecked_eq_some, backwardChecked_eq_some]
  have := b.isLt
  omega

/-- `steps_between` counts the steps of a successful `forward_checked`. -/
theorem stepsBetween_of_forwardChecked (h : forwardChecked a n = some b) : stepsBetween a b = some n := by
  rw [forwardChecked_eq_some] at h
  rw [stepsBetween_eq_some]
  omega

/-- `steps_between(a, b) = Some(n)` gives back `forward_checked(a, n) = Some(b)` exactly when `b - a` is a whole
number of pages: `steps_between` rounds down. -/
theorem forwardChecked_of_stepsBetween (h : stepsBetween a b = some n) :
    forwardChecked a n = some b ↔ (b.toNat - a.toNat) % 4096 = 0 := by
  rw [stepsBetween_eq_some] at h
  rw [forwardChecked_eq_some]
  have := b.isLt
  omega

end Step

/-! ## Frames and pages -/

/-- `Frame(PhysAddr(u64))`: a physical frame, named by its base address. -/
structure Frame where
  addr : BitVec 64
deriving DecidableEq, Repr

/-- Frames are their addresses. -/
theorem Frame.eq_of_toNat_eq {f g : Frame} (h : f.addr.toNat = g.addr.toNat) : f = g := by
  cases f; cases g
  exact congrArg Frame.mk (BitVec.eq_of_toNat_eq h)

/-- `Page(VirtAddr(usize))`: a virtual page, named by its base address. -/
structure Page where
  addr : BitVec 64
deriving DecidableEq, Repr

/-- `<Frame as Step>::steps_between`. -/
def Frame.stepsBetween (start stop : Frame) : Option (BitVec 64) := Step.stepsBetween start.addr stop.addr

/-- `<Frame as Step>::forward_checked`. -/
def Frame.forwardChecked (start : Frame) (count : BitVec 64) : Option Frame :=
  (Step.forwardChecked start.addr count).map Frame.mk

/-- `<Frame as Step>::backward_checked`. -/
def Frame.backwardChecked (start : Frame) (count : BitVec 64) : Option Frame :=
  (Step.backwardChecked start.addr count).map Frame.mk

/-- `<Page as Step>::steps_between`. -/
def Page.stepsBetween (start stop : Page) : Option (BitVec 64) := Step.stepsBetween start.addr stop.addr

/-- `<Page as Step>::forward_checked`. -/
def Page.forwardChecked (start : Page) (count : BitVec 64) : Option Page :=
  (Step.forwardChecked start.addr count).map Page.mk

/-- `<Page as Step>::backward_checked`. -/
def Page.backwardChecked (start : Page) (count : BitVec 64) : Option Page :=
  (Step.backwardChecked start.addr count).map Page.mk

/-- `Step::forward(page, count)`: `forward_checked(page, count).expect("overflow in Step::forward")`. -/
def Page.forward (start : Page) (count : BitVec 64) : Except Panic Page :=
  match start.forwardChecked count with
  | some p => .ok p
  | none => .error ⟨"overflow in `Step::forward`"⟩

/-! ## Ranges and their iteration -/

/-- `Range<Page>` (`start..end`; `end` is a keyword of Lean). -/
structure PageRange where
  start : Page
  stop : Page
deriving DecidableEq, Repr

/-- `Range<Frame>`. -/
structure FrameRange where
  start : Frame
  stop : Frame
deriving DecidableEq, Repr

/-- The message of `Range::next` when `Step::forward_checked(start, 1)` fails below `end`. -/
def stepInvariantPanic : Panic := ⟨"`Step` invariants not upheld"⟩

/-- The number of pages `start + 4096 * i` below `end`: the rounds of a `for` loop over `start..end` when no step
overflows. -/
def rangeLen (start stop : BitVec 64) : Nat :=
  (stop.toNat - start.toNat + 4095) / 4096

namespace Step

/-- `<Range<A> as Iterator>::next` (core's `spec_next`) for the kernel's two `Step` types, on the words they hold: while
`start < end` it yields `start`, and the new start is `forward_checked(start, 1)`, which must succeed. -/
def rangeNext (start stop : BitVec 64) : Except Panic (Option (BitVec 64)) :=
  if start < stop then
    match forwardChecked start 1 with
    | some n => .ok (some n)
    | none => .error stepInvariantPanic
  else .ok none

/-- What one call of `next` does: end the loop at `end`, move on by one page, or panic when that page overflows. -/
theorem rangeNext_cases (start stop : BitVec 64) :
    (stop.toNat ≤ start.toNat ∧ rangeNext start stop = .ok none) ∨
    (start.toNat < stop.toNat ∧ start.toNat + 4096 < 2 ^ 64 ∧ rangeNext start stop = .ok (some (start + 4096))) ∨
    (start.toNat < stop.toNat ∧ 2 ^ 64 ≤ start.toNat + 4096 ∧ rangeNext start stop = .error stepInvariantPanic) := by
  unfold rangeNext
  by_cases hlt : start < stop
  · have hlt' := BitVec.lt_def.1 hlt
    rw [if_pos hlt, forwardChecked_eq, show (1 : BitVec 64).toNat * 4096 = 4096 from rfl,
      show (1 : BitVec 64) * 4096 = 4096 from rfl]
    by_cases hfit : start.toNat + 4096 < 2 ^ 64
    · exact .inr (.inl ⟨hlt', hfit, by rw [if_pos hfit]⟩)
    · exact .inr (.inr ⟨hlt', by omega, by rw [if_neg hfit]⟩)
  · exact .inl ⟨by rw [BitVec.lt_def] at hlt; omega, by rw [if_neg hlt]⟩

theorem rangeNext_eq_some {start stop n : BitVec 64} (h : rangeNext start stop = .ok (some n)) :
    start.toNat < stop.toNat ∧ n.toNat = start.toNat + 4096 := by
  rcases rangeNext_cases start stop with ⟨-, h'⟩ | ⟨hlt, hfit, h'⟩ | ⟨-, -, h'⟩ <;> rw [h'] at h
  · cases h
  · rw [← Option.some.inj (Except.ok.inj h)]
    exact ⟨hlt, toNat_add_of_lt hfit⟩
  · cases h

/-- A `for` loop over `start..end`: the words `next` yields, in order, and the panic of the call that stopped the loop,
if one did rather than return `None`. -/
def rangeIter (start stop : BitVec 64) : List (BitVec 64) × Option Panic :=
  match _h : rangeNext start stop with
  | .error e => ([], some e)
  | .ok none => ([], none)
  | .ok (some n) =>
    let rest := rangeIter n stop
    (start :: rest.1, rest.2)
termination_by 2 ^ 64 - start.toNat
decreasing_by
  have := rangeNext_eq_some _h
  have := n.isLt
  omega

/-- The words `start + 4096 * i` for `i < k + 1`, split at the first. -/
theorem map_range_succ_offset {start n : BitVec 64} (hn : n.toNat = start.toNat + 4096) (k : Nat) :
    start :: (List.range k).map (fun i => n + BitVec.ofNat 64 (4096 * i)) =
      (List.range (k + 1)).map fun i => start + BitVec.ofNat 64 (4096 * i) := by
  rw [List.range_succ_eq_map, List.map_cons, List.map_map]
  refine congrArg₂ _ (by simp) (List.map_congr_left fun i _ => BitVec.eq_of_toNat_eq ?_)
  simp only [Function.comp_apply, BitVec.toNat_add, BitVec.toNat_ofNat, hn]
  omega

/-- A `for` loop over `start..end` visits the words `start + 4096 * i` below `end` and ends, when the word after the last
of them fits in 64 bits; otherwise it visits all but the last, and the call of `next` at the last panics. -/
theorem rangeIter_eq (start stop : BitVec 64) :
    rangeIter start stop =
      if start.toNat + 4096 * rangeLen start stop < 2 ^ 64 then
        ((List.range (rangeLen start stop)).map fun i => start + BitVec.ofNat 64 (4096 * i), none)
      else ((List.range (rangeLen start stop - 1)).map fun i => start + BitVec.ofNat 64 (4096 * i),
        some stepInvariantPanic) := by
  have hstop := stop.isLt
  rcases rangeNext_cases start stop with ⟨hle, h⟩ | ⟨hlt, hfit, h⟩ | ⟨hlt, hover, h⟩
  · have hL : rangeLen start stop = 0 := by unfold rangeLen; omega
    rw [rangeIter, h, hL, if_pos (by have := start.isLt; omega)]
    rfl
  · have hn : (start + 4096).toNat = start.toNat + 4096 := toNat_add_of_lt hfit
    have hL : rangeLen start stop = rangeLen (start + 4096) stop + 1 := by unfold rangeLen; rw [hn]; omega
    rw [rangeIter, h]
    simp only
    rw [rangeIter_eq (start + 4096) stop, hL, hn]
    by_cases hfit' : start.toNat + 4096 + 4096 * rangeLen (start + 4096) stop < 2 ^ 64
    · rw [if_pos hfit', if_pos (by omega), map_range_succ_offset hn]
    · have h1 : 1 ≤ rangeLen (start + 4096) stop := Nat.pos_of_ne_zero fun h0 => hfit' (by rw [h0]; omega)
      rw [if_neg hfit', if_neg (by omega), map_range_succ_offset hn, Nat.sub_add_cancel h1, Nat.add_sub_cancel]
  · have hL : rangeLen start stop = 1 := by unfold rangeLen; omega
    rw [rangeIter, h, hL, if_neg (by omega)]
    rfl
termination_by 2 ^ 64 - start.toNat
decreasing_by
  rw [hn]
  omega

end Step

/-- `<Range<Page> as Iterator>::next`. -/
def PageRange.next (r : PageRange) : Except Panic (Option (Page × PageRange)) :=
  (Step.rangeNext r.start.addr r.stop.addr).map (Option.map fun n => (r.start, { r with start := ⟨n⟩ }))

/-- `<Range<Frame> as Iterator>::next`. -/
def FrameRange.next (r : FrameRange) : Except Panic (Option (Frame × FrameRange)) :=
  (Step.rangeNext r.start.addr r.stop.addr).map (Option.map fun n => (r.start, { r with start := ⟨n⟩ }))

/-- A `for` loop over a `Range<Page>`: the pages it visits, and the panic that stopped it, if any. -/
def PageRange.iterate (r : PageRange) : List Page × Option Panic :=
  Prod.map (List.map Page.mk) id (Step.rangeIter r.start.addr r.stop.addr)

/-- A `for` loop over a `Range<Frame>`: the frames it visits, and the panic that stopped it, if any. -/
def FrameRange.iterate (r : FrameRange) : List Frame × Option Panic :=
  Prod.map (List.map Frame.mk) id (Step.rangeIter r.start.addr r.stop.addr)

/-- A `for` loop over `start..end` runs `steps_between(start, end)` rounds exactly when `end - start` is a whole
number of pages: `steps_between` rounds down and the loop rounds up. -/
theorem rangeLen_of_stepsBetween {a b n : BitVec 64} (h : Step.stepsBetween a b = some n) :
    rangeLen a b = n.toNat ↔ (b.toNat - a.toNat) % 4096 = 0 := by
  rw [Step.stepsBetween_eq_some] at h
  unfold rangeLen
  omega

/-- The number of rounds of a `for` loop over a `Range<Page>`. -/
def PageRange.len (r : PageRange) : Nat := rangeLen r.start.addr r.stop.addr

end Ithaca
