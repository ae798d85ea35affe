import Ithaca.Types

/-!
# Page-table entries

`address_space/x86_64.rs`: a `PageTableEntry` is one `u64`. `PageTableEntry::new(flags, frame)` masks the flags with
`!FRAME_MASK` and ors the frame in unmasked; `flags()` keeps the declared flags among the word's bits
(`from_bits_truncate`), and `frame()` keeps the bits of `FRAME_MASK`, bits 12 to 62.

The lemmas here read single bits: the present bit (0) and the huge-page bit (7) of an entry, and what `new` and
`frame` do to each bit. A frame that is page-aligned and below `2^63` (`Frame.Aligned`) is the frame bits of every
entry built from it, and is what `frame()` gives back; every `frame()` is such a frame.
-/

namespace Ithaca

/-- `PageFlags`: the `bitflags!` set over `u64` (its value is the bits it holds). -/
structure PageFlags where
  bits : BitVec 64
deriving DecidableEq, Repr

namespace PageFlags

/-- `PRESENT = 1`. -/
def present : PageFlags := ⟨1⟩

/-- `WRITABLE = 1 << 1`. -/
def writable : PageFlags := ⟨1 <<< 1⟩

/-- `USER = 1 << 2`. -/
def user : PageFlags := ⟨1 <<< 2⟩

/-- `DISABLE_CACHE = 1 << 4`. -/
def disableCache : PageFlags := ⟨1 <<< 4⟩

/-- `HUGE_PAGE = 1 << 7`. -/
def hugePage : PageFlags := ⟨1 <<< 7⟩

/-- `PageFlags::empty()`. -/
def empty : PageFlags := ⟨0⟩

/-- `PageFlags::all()`: the declared flags. -/
def all : PageFlags := ⟨present.bits ||| writable.bits ||| user.bits ||| disableCache.bits ||| hugePage.bits⟩

/-- `a | b` (and `a |= b`). -/
instance : OrOp PageFlags := ⟨fun a b => ⟨a.bits ||| b.bits⟩⟩

/-- `PageFlags::from_bits_truncate(bits)`: the declared flags among `bits`. -/
def fromBitsTruncate (bits : BitVec 64) : PageFlags := ⟨bits &&& all.bits⟩

/-- `a.contains(b)`: every flag of `b` is in `a`. -/
def contains (a b : PageFlags) : Bool := (a.bits &&& b.bits) == b.bits

@[simp] theorem or_bits (a b : PageFlags) : (a ||| b).bits = a.bits ||| b.bits := rfl

end PageFlags

/-- `FRAME_MASK = u64::MAX.wrapping_shl(13).wrapping_shr(1)`. -/
def frameMask : BitVec 64 := (BitVec.allOnes 64 <<< 13) >>> 1

/-- `PageTableEntry(u64)`. -/
structure PageTableEntry where
  bits : BitVec 64
deriving DecidableEq, Repr

/-- `PageTableEntry::missing()`. -/
def PageTableEntry.missing : PageTableEntry := ⟨0⟩

/-- `PageTableEntry::new(flags, frame)`: `(flags.bits() & !FRAME_MASK) | frame.0.0`. -/
def PageTableEntry.new (flags : PageFlags) (frame : Frame) : PageTableEntry :=
  ⟨(flags.bits &&& ~~~frameMask) ||| frame.addr⟩

/-- `PageTableEntry::flags()`: `PageFlags::from_bits_truncate(self.0)`. -/
def PageTableEntry.flags (e : PageTableEntry) : PageFlags := .fromBitsTruncate e.bits

/-- `PageTableEntry::frame()`: `Frame(PhysAddr(self.0 & FRAME_MASK))`. -/
def PageTableEntry.frame (e : PageTableEntry) : Frame := ⟨e.bits &&& frameMask⟩

/-- A frame that is page-aligned and below `2^63`: exactly the frames that `FRAME_MASK` keeps whole. -/
def Frame.Aligned (f : Frame) : Prop := f.addr.toNat % 4096 = 0 ∧ f.addr.toNat < 2 ^ 63

instance (f : Frame) : Decidable f.Aligned := inferInstanceAs (Decidable (_ ∧ _))

/-! ## Bits -/

/-- `FRAME_MASK` holds bits 12 to 62. -/
@[simp] theorem frameMask_getLsbD (i : Nat) : frameMask.getLsbD i = (decide (12 ≤ i) && decide (i < 63)) := by
  simp only [frameMask, BitVec.getLsbD_ushiftRight, BitVec.getLsbD_shiftLeft, BitVec.getLsbD_allOnes]
  by_cases h1 : 12 ≤ i <;> by_cases h2 : i < 63 <;> simp [h1, h2] <;> omega

/-- `contains` of a one-bit flag reads that bit. -/
theorem contains_twoPow (x : BitVec 64) (k : Nat) (hk : k < 64) :
    ((x &&& BitVec.twoPow 64 k) == BitVec.twoPow 64 k) = x.getLsbD k := by
  cases h : x.getLsbD k
  · simp only [beq_eq_false_iff_ne]
    intro he
    have := congrArg (·.getLsbD k) he
    simp [BitVec.getLsbD_and, BitVec.getLsbD_twoPow, h, hk] at this
  · simp only [beq_iff_eq]
    apply BitVec.eq_of_getLsbD_eq
    intro i
    simp only [BitVec.getLsbD_and, BitVec.getLsbD_twoPow]
    by_cases hi : (i : Nat) = k
    · simp [hi, h, hk]
    · simp [hi, Ne.symm hi]

/-- An entry's `PRESENT` flag is its bit 0. -/
@[simp] theorem flags_contains_present (e : PageTableEntry) :
    e.flags.contains PageFlags.present = e.bits.getLsbD 0 := by
  have h : PageFlags.present.bits = BitVec.twoPow 64 0 := by decide
  have ha : PageFlags.all.bits.getLsbD 0 = true := by decide
  rw [PageTableEntry.flags, PageFlags.fromBitsTruncate, PageFlags.contains, h, contains_twoPow _ _ (by omega),
    BitVec.getLsbD_and, ha, Bool.and_true]

/-- An entry's `HUGE_PAGE` flag is its bit 7. -/
@[simp] theorem flags_contains_hugePage (e : PageTableEntry) :
    e.flags.contains PageFlags.hugePage = e.bits.getLsbD 7 := by
  have h : PageFlags.hugePage.bits = BitVec.twoPow 64 7 := by decide
  have ha : PageFlags.all.bits.getLsbD 7 = true := by decide
  rw [PageTableEntry.flags, PageFlags.fromBitsTruncate, PageFlags.contains, h, contains_twoPow _ _ (by omega),
    BitVec.getLsbD_and, ha, Bool.and_true]

/-- The bits of `new(flags, frame)`: the flags' bits outside `FRAME_MASK`, or the frame's. -/
@[simp] theorem new_getLsbD (fl : PageFlags) (f : Frame) (i : Nat) :
    (PageTableEntry.new fl f).bits.getLsbD i =
      ((fl.bits.getLsbD i && (decide (i < 64) && !(decide (12 ≤ i) && decide (i < 63)))) || f.addr.getLsbD i) := by
  simp [PageTableEntry.new, BitVec.getLsbD_or, BitVec.getLsbD_and, BitVec.getLsbD_not]

/-- `frame()` of `new(flags, frame)` is the frame's `FRAME_MASK` bits: the flags never reach the frame field. -/
@[simp] theorem frame_new (fl : PageFlags) (f : Frame) : (PageTableEntry.new fl f).frame = ⟨f.addr &&& frameMask⟩ := by
  simp only [PageTableEntry.frame, Frame.mk.injEq]
  apply BitVec.eq_of_getLsbD_eq
  intro i
  simp only [BitVec.getLsbD_and, new_getLsbD, frameMask_getLsbD]
  cases fl.bits.getLsbD i <;> cases f.addr.getLsbD i <;> simp; omega

/-- An aligned frame has no bit below 12, nor bit 63. -/
theorem Frame.Aligned.getLsbD {f : Frame} (h : f.Aligned) (i : Nat) (hi : i < 12 ∨ 63 ≤ i) : f.addr.getLsbD i = false := by
  rw [← BitVec.testBit_toNat]
  rcases hi with hi | hi
  · have h0 : (f.addr.toNat % 2 ^ 12).testBit i = false := by rw [show 2 ^ 12 = 4096 from rfl, h.1]; simp
    rwa [Nat.testBit_mod_two_pow, decide_eq_true hi, Bool.true_and] at h0
  · exact Nat.testBit_eq_false_of_lt (lt_of_lt_of_le h.2 (Nat.pow_le_pow_right (by omega) hi))

/-- An aligned frame is its own `FRAME_MASK` bits. -/
theorem Frame.Aligned.and_frameMask {f : Frame} (h : f.Aligned) : f.addr &&& frameMask = f.addr := by
  apply BitVec.eq_of_getLsbD_eq
  intro i
  simp only [BitVec.getLsbD_and, frameMask_getLsbD]
  by_cases hi : 12 ≤ (i : Nat) ∧ (i : Nat) < 63
  · simp [hi.1, hi.2]
  · rw [h.getLsbD i (by omega)]
    simp

/-- The `FRAME_MASK` bits of any word are an aligned frame. -/
theorem Frame.aligned_and_frameMask (x : BitVec 64) : Frame.Aligned ⟨x &&& frameMask⟩ := by
  have hlow : ∀ i, i < 12 → (x &&& frameMask).toNat.testBit i = false := by
    intro i hi; simp [BitVec.testBit_toNat, hi, Nat.not_le.2 hi]
  refine ⟨?_, ?_⟩
  · have : (x &&& frameMask).toNat % 2 ^ 12 = 0 := Nat.eq_of_testBit_eq fun i => by
      rw [Nat.testBit_mod_two_pow, Nat.zero_testBit]
      by_cases hi : i < 12
      · rw [hlow i hi]; simp
      · simp [hi]
    simpa using this
  · apply Nat.lt_pow_two_of_testBit
    intro i hi
    rw [BitVec.testBit_toNat, BitVec.getLsbD_and, frameMask_getLsbD]
    simp [Nat.not_lt.2 hi]

/-- Every `frame()` is aligned. -/
theorem PageTableEntry.frame_aligned (e : PageTableEntry) : e.frame.Aligned := Frame.aligned_and_frameMask e.bits

/-- `frame()` of `new(flags, f)` for an aligned `f` is `f`. -/
theorem frame_new_of_aligned (fl : PageFlags) {f : Frame} (h : f.Aligned) : (PageTableEntry.new fl f).frame = f := by
  rw [frame_new, h.and_frameMask]

/-- `new(flags, f)` for an aligned `f` is present exactly when the flags hold `PRESENT`, and has the huge-page bit
exactly when the flags hold `HUGE_PAGE`. -/
theorem new_present_huge_of_aligned (fl : PageFlags) {f : Frame} (h : f.Aligned) :
    (PageTableEntry.new fl f).bits.getLsbD 0 = fl.bits.getLsbD 0 ∧
      (PageTableEntry.new fl f).bits.getLsbD 7 = fl.bits.getLsbD 7 := by
  simp [h.getLsbD 0 (by omega), h.getLsbD 7 (by omega)]

/-! ## Flags of a built entry -/

/-- The declared flags are all below bit 12, outside `FRAME_MASK`. -/
theorem all_getLsbD_lt {i : Nat} (h : PageFlags.all.bits.getLsbD i = true) : i < 12 := by
  by_contra hi
  have hlt : PageFlags.all.bits.toNat < 2 ^ i :=
    lt_of_lt_of_le (show PageFlags.all.bits.toNat < 2 ^ 12 by decide) (Nat.pow_le_pow_right (by omega) (by omega))
  rw [← BitVec.testBit_toNat, Nat.testBit_eq_false_of_lt hlt] at h
  exact Bool.false_ne_true h

/-- What `flags()` reads back from `new(flags, frame)`. `frame()` is the frame's `FRAME_MASK` bits for every input. The
flags are the declared flags among the flags' bits and the frame's: the frame's low bits reach the flags, and undeclared
flag bits are dropped. So the flags come back unchanged exactly when they are declared flags and the frame has none of
its own, as a page-aligned frame has. -/
theorem new_flags_frame (fl : PageFlags) (f : Frame) :
    (PageTableEntry.new fl f).frame = ⟨f.addr &&& frameMask⟩ ∧
    (PageTableEntry.new fl f).flags = ⟨(fl.bits ||| f.addr) &&& PageFlags.all.bits⟩ ∧
    (fl.bits &&& ~~~PageFlags.all.bits = 0 → f.addr &&& PageFlags.all.bits = 0 → (PageTableEntry.new fl f).flags = fl) := by
  have hflags : (PageTableEntry.new fl f).flags = ⟨(fl.bits ||| f.addr) &&& PageFlags.all.bits⟩ := by
    simp only [PageTableEntry.flags, PageFlags.fromBitsTruncate, PageFlags.mk.injEq]
    apply BitVec.eq_of_getLsbD_eq
    intro i
    simp only [BitVec.getLsbD_and, BitVec.getLsbD_or, new_getLsbD]
    cases ha : PageFlags.all.bits.getLsbD i
    · simp
    · simp [show ¬12 ≤ (i : Nat) from Nat.not_le.2 (all_getLsbD_lt ha)]
  refine ⟨frame_new fl f, hflags, fun hfl hf => ?_⟩
  rw [hflags, PageFlags.mk.injEq]
  apply BitVec.eq_of_getLsbD_eq
  intro i
  have h1 := congrArg (BitVec.getLsbD · i) hfl
  have h2 := congrArg (BitVec.getLsbD · i) hf
  simp only [BitVec.getLsbD_and, BitVec.getLsbD_or, BitVec.getLsbD_not, i.isLt, decide_True, Bool.true_and] at h1 h2 ⊢
  revert h1 h2
  cases fl.bits.getLsbD i <;> cases f.addr.getLsbD i <;> cases PageFlags.all.bits.getLsbD i <;> simp

/-- `PRESENT` with an aligned frame comes back unchanged. -/
theorem new_flags_frame_present :
    PageFlags.present.bits &&& ~~~PageFlags.all.bits = 0 ∧ (⟨4096⟩ : Frame).addr &&& PageFlags.all.bits = 0 ∧
      (PageTableEntry.new PageFlags.present ⟨4096⟩).flags = PageFlags.present :=
  ⟨by decide, by decide, (new_flags_frame PageFlags.present ⟨4096⟩).2.2 (by decide) (by decide)⟩

/-- A frame with bit 2 set grants `USER`: `new(PRESENT, Frame(4)).flags()` is `PRESENT | USER`. -/
theorem new_flags_frame_leak :
    (PageTableEntry.new PageFlags.present ⟨4⟩).flags = PageFlags.present ||| PageFlags.user ∧
      (PageTableEntry.new PageFlags.present ⟨4⟩).flags ≠ PageFlags.present := by
  decide

end Ithaca
