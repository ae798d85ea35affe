import Mathlib.Logic.Function.Basic
import Mathlib.Algebra.Group.Nat.Basic

/-!
# The local APIC

`x86_64/apic/local.rs` reaches the local APIC's registers through an `ApicAddressSpace`: an `XApic` through its
memory-mapped page, register `i` at byte `16 * i`, and an `X2Apic` through the MSRs `0x800 + i`. `LocalApic::enable`
sets the enable bit of `IA32_APIC_BASE` when `cpuid` reports the APIC, then the spurious vector `0xff` and the software
enable bit; `enable_timer` starts the timer, periodic on vector 32. The machine is the MSRs, memory by address and what
`cpuid` reports. An `XApic` presents one register file (`RegisterView`): a register reads back what was last written
to it and a write changes no other, so `kernel_main`'s setup leaves the file as `timerSetup` says
(`kernelMainApicSetup_regs`).
-/

namespace Ithaca

namespace Apic

/-- What `cpuid` returns in `ecx` and `edx` for a leaf. -/
structure CpuidResult where
  ecx : BitVec 32
  edx : BitVec 32

/-- The state the local APIC code reads and writes: the model-specific registers, the 32-bit words of memory by
address, and what `cpuid` returns for each leaf. -/
structure Machine where
  msr : BitVec 32 → BitVec 64
  mem : BitVec 64 → BitVec 32
  cpuid : BitVec 32 → CpuidResult

/-- `rdmsr(msr)`: the MSR comes back in `edx:eax`, and the two halves are joined. -/
def rdmsr (m : Machine) (msr : BitVec 32) : BitVec 64 :=
  let high : BitVec 64 := m.msr msr >>> 32
  let low : BitVec 64 := (m.msr msr).setWidth 32 |>.setWidth 64
  high <<< 32 ||| low

/-- `wrmsr(msr, value)`: `value` is split into `edx:eax`, which the MSR takes. -/
def wrmsr (m : Machine) (msr : BitVec 32) (value : BitVec 64) : Machine :=
  let low : BitVec 32 := value.setWidth 32
  let high : BitVec 32 := (value >>> 32).setWidth 32
  { m with msr := Function.update m.msr msr (high ++ low) }

theorem rdmsr_eq (m : Machine) (msr : BitVec 32) : rdmsr m msr = m.msr msr := by
  ext ⟨i, hi⟩
  simp only [rdmsr, BitVec.getLsbD_or, BitVec.getLsbD_shiftLeft, BitVec.getLsbD_ushiftRight,
    BitVec.getLsbD_setWidth]
  by_cases h : i < 32
  · simp [h, hi]
  · have : 32 + (i - 32) = i := by omega
    simp [h, this, hi]

theorem wrmsr_eq (m : Machine) (msr : BitVec 32) (value : BitVec 64) :
    wrmsr m msr value = { m with msr := Function.update m.msr msr value } := by
  have hsplit : (value >>> 32).setWidth 32 ++ value.setWidth 32 = value := by
    ext ⟨i, hi⟩
    simp only [BitVec.getLsbD_append, BitVec.getLsbD_setWidth, BitVec.getLsbD_ushiftRight]
    by_cases h : i < 32
    · simp [h, hi]
    · have : 32 + (i - 32) = i := by omega
      simp [h, this, hi]
      omega
  simp only [wrmsr, hsplit]

/-- `IA32_APIC_BASE`: the APIC's base address and enable bits. -/
def ia32ApicBase : BitVec 32 := 0x1b

/-- `X2APIC_MSR_BASE`: x2APIC register `i` is the MSR `0x800 + i`. -/
def x2apicMsrBase : BitVec 32 := 0x800

/-- `XAPIC_BASE_ADDRESS`. -/
def xapicBaseAddress : BitVec 64 := 0xfee00000

/-- `ApicEnableError`. -/
inductive ApicEnableError where
  | unsupported
deriving DecidableEq, Repr

/-- `LocalApicId`. -/
structure LocalApicId where
  val : BitVec 32
deriving DecidableEq, Repr

/-- `ApicAddressSpace`: how the local APIC's registers are reached, by index, and how the APIC is enabled. -/
class ApicAddressSpace (A : Type) where
  id : A → Machine → LocalApicId
  enable : A → Machine → Except ApicEnableError Machine
  read : A → Machine → BitVec 32 → BitVec 32
  write : A → Machine → BitVec 32 → BitVec 32 → Machine

/-! ## The two address spaces -/

/-- An `XApic`: the virtual address `base` of the APIC's register page. -/
structure XApic where
  base : BitVec 64
deriving DecidableEq, Repr

namespace XApic

/-- `XApic::physical_address()`. -/
def physicalAddress : BitVec 64 := xapicBaseAddress

/-- `XApic::with_address(addr)`. -/
def withAddress (addr : BitVec 64) : XApic := ⟨addr⟩

/-- The address of register `registerIndex`: `base.add(register_index as usize)` over 16-byte `Register`s. -/
def slot (x : XApic) (registerIndex : BitVec 32) : BitVec 64 := x.base + 16 * registerIndex.setWidth 64

/-- `XApic::read`: the `u32` of the register's `Register`. -/
def read (x : XApic) (m : Machine) (registerIndex : BitVec 32) : BitVec 32 := m.mem (x.slot registerIndex)

/-- `XApic::write`. -/
def write (x : XApic) (m : Machine) (registerIndex value : BitVec 32) : Machine :=
  { m with mem := Function.update m.mem (x.slot registerIndex) value }

/-- `XApic::id`: the ID register's top byte. -/
def id (x : XApic) (m : Machine) : LocalApicId := ⟨x.read m 0x2 >>> 24⟩

/-- `XApic::enable`: if `cpuid` leaf 1 reports an APIC (`edx` bit 9), set the global enable bit 11 of
`IA32_APIC_BASE`. -/
def enable (_ : XApic) (m : Machine) : Except ApicEnableError Machine :=
  let supported := (m.cpuid 1).edx &&& (1 : BitVec 32) <<< 9 != 0
  if !supported then .error .unsupported
  else
    let value := rdmsr m ia32ApicBase
    let new := value ||| (1 : BitVec 64) <<< 11
    .ok (wrmsr m ia32ApicBase new)

end XApic

instance : ApicAddressSpace XApic := ⟨XApic.id, XApic.enable, XApic.read, XApic.write⟩

/-- An `X2Apic`: its registers are MSRs, so it holds nothing. -/
structure X2Apic where
deriving DecidableEq, Repr

namespace X2Apic

/-- `X2Apic::read`: the low half of the register's MSR. -/
def read (_ : X2Apic) (m : Machine) (registerIndex : BitVec 32) : BitVec 32 :=
  (rdmsr m (x2apicMsrBase + registerIndex)).setWidth 32

/-- `X2Apic::write`. -/
def write (_ : X2Apic) (m : Machine) (registerIndex value : BitVec 32) : Machine :=
  wrmsr m (x2apicMsrBase + registerIndex) (value.setWidth 64)

/-- `X2Apic::id`: the whole ID register. -/
def id (y : X2Apic) (m : Machine) : LocalApicId := ⟨y.read m 0x2⟩

/-- `X2Apic::enable`: if `cpuid` leaf 1 reports x2APIC support (`ecx` bit 21), write `IA32_APIC_BASE` with the xAPIC
base address and bits 10 and 11. -/
def enable (_ : X2Apic) (m : Machine) : Except ApicEnableError Machine :=
  let supported := (m.cpuid 1).ecx &&& (1 : BitVec 32) <<< 21 != 0
  if !supported then .error .unsupported
  else .ok (wrmsr m ia32ApicBase (xapicBaseAddress ||| (0b11 : BitVec 64) <<< 10))

end X2Apic

instance : ApicAddressSpace X2Apic := ⟨X2Apic.id, X2Apic.enable, X2Apic.read, X2Apic.write⟩

/-! ## `LocalApic` -/

/-- `TimerMode`, as `timer_mode as u32` numbers it. -/
inductive TimerMode where
  | oneShot
  | periodic
  | tscDeadline
deriving DecidableEq, Repr

/-- `timer_mode as u32`. -/
def TimerMode.toU32 : TimerMode → BitVec 32
  | .oneShot => 0
  | .periodic => 1
  | .tscDeadline => 2

/-- `TriggerMode`, as `trigger_mode as u32` numbers it. -/
inductive TriggerMode where
  | edge
  | level
deriving DecidableEq, Repr

/-- `trigger_mode as u32`. -/
def TriggerMode.toU32 : TriggerMode → BitVec 32
  | .edge => 0
  | .level => 1

/-- `pack_timer_lvt_entry(vector, timer_mode, trigger_mode, mask)`. -/
def packTimerLvtEntry (vector : BitVec 8) (timerMode : TimerMode) (triggerMode : TriggerMode) (mask : Bool) :
    BitVec 32 :=
  vector.setWidth 32 ||| timerMode.toU32 <<< 17 ||| (if mask then 1 else 0 : BitVec 32) <<< 16 |||
    triggerMode.toU32 <<< 15

/-- `LocalApic<A>`. -/
structure LocalApic (A : Type) where
  addressSpace : A

namespace LocalApic

variable {A : Type} [ApicAddressSpace A]

/-- `LocalApic::enable(address_space)`: enable the APIC, then set the spurious vector `0xff` and the software enable
bit 8 in the spurious-interrupt register. -/
def enable (addressSpace : A) (m : Machine) : Except ApicEnableError (LocalApic A × Machine) := do
  let spuriousInterruptVectorRegister : BitVec 32 := 0xf
  let m ← ApicAddressSpace.enable addressSpace m
  let m := ApicAddressSpace.write addressSpace m spuriousInterruptVectorRegister
    (ApicAddressSpace.read addressSpace m spuriousInterruptVectorRegister ||| 0x1ff)
  pure (⟨addressSpace⟩, m)

/-- `LocalApic::id`. -/
def id (l : LocalApic A) (m : Machine) : LocalApicId := ApicAddressSpace.id l.addressSpace m

/-- `LocalApic::version`: the version register's low byte. -/
def version (l : LocalApic A) (m : Machine) : BitVec 8 := (ApicAddressSpace.read l.addressSpace m 0x3).setWidth 8

/-- `LocalApic::enable_timer`: initial count 1, divide configuration 3 (divide by 16), then the LVT entry for vector
32, periodic, edge, unmasked. -/
def enableTimer (l : LocalApic A) (m : Machine) : Machine :=
  let entryBits := packTimerLvtEntry 32 .periodic .edge false
  let m := ApicAddressSpace.write l.addressSpace m 0x38 0x1
  let m := ApicAddressSpace.write l.addressSpace m 0x3e 0x3
  ApicAddressSpace.write l.addressSpace m 0x32 entryBits

end LocalApic

/-- `kernel_main`'s local APIC setup: `XApic::with_address` on the page it mapped for the APIC,
`LocalApic::enable(xapic).unwrap()`, where an error panics, and `enable_timer`. -/
def kernelMainApicSetup (localApicAddress : BitVec 64) (m : Machine) : Except ApicEnableError Machine := do
  let xapic := XApic.withAddress localApicAddress
  let (lapic, m) ← LocalApic.enable xapic m
  pure (lapic.enableTimer m)

/-! ## The register file -/

section View

variable {A : Type} [ApicAddressSpace A]

/-- `regs` reads the APIC's register file out of the machine as address space `a` reaches it: a register reads back
what was last written to it, a write changes no other register, and enabling the APIC changes none. -/
structure RegisterView (a : A) (regs : Machine → BitVec 8 → BitVec 32) : Prop where
  read_eq : ∀ m r, ApicAddressSpace.read a m (r.setWidth 32) = regs m r
  write_eq : ∀ m r v, regs (ApicAddressSpace.write a m (r.setWidth 32) v) = Function.update (regs m) r v
  enable_eq : ∀ m m', ApicAddressSpace.enable a m = .ok m' → regs m' = regs m

/-- What `LocalApic::enable` and `enable_timer` do to the register file. -/
def timerSetup (regs : BitVec 8 → BitVec 32) : BitVec 8 → BitVec 32 :=
  let regs := Function.update regs 0xf (regs 0xf ||| 0x1ff)
  let regs := Function.update regs 0x38 0x1
  let regs := Function.update regs 0x3e 0x3
  Function.update regs 0x32 (packTimerLvtEntry 32 .periodic .edge false)

variable {a : A} {regs : Machine → BitVec 8 → BitVec 32}

theorem RegisterView.enableTimer_regs (hv : RegisterView a regs) (m : Machine) :
    regs ((⟨a⟩ : LocalApic A).enableTimer m) =
      Function.update (Function.update (Function.update (regs m) 0x38 0x1) 0x3e 0x3) 0x32
        (packTimerLvtEntry 32 .periodic .edge false) := by
  simp only [LocalApic.enableTimer]
  rw [show (0x32 : BitVec 32) = (0x32 : BitVec 8).setWidth 32 from rfl,
    show (0x3e : BitVec 32) = (0x3e : BitVec 8).setWidth 32 from rfl,
    show (0x38 : BitVec 32) = (0x38 : BitVec 8).setWidth 32 from rfl, hv.write_eq, hv.write_eq, hv.write_eq]

theorem LocalApic.enable_of_ok {a : A} {m m1 : Machine} (h : ApicAddressSpace.enable a m = .ok m1) :
    LocalApic.enable a m =
      .ok (⟨a⟩, ApicAddressSpace.write a m1 0xf (ApicAddressSpace.read a m1 0xf ||| 0x1ff)) := by
  simp only [LocalApic.enable, h]
  rfl

theorem LocalApic.enable_of_error {a : A} {m : Machine} {e : ApicEnableError}
    (h : ApicAddressSpace.enable a m = .error e) : LocalApic.enable a m = .error e := by
  simp only [LocalApic.enable, h]
  rfl

/-- Over any address space that presents a register file, what `LocalApic::enable` and `enable_timer` write leaves
the register file as `timerSetup` says. -/
theorem RegisterView.setup_regs (hv : RegisterView a regs) {m m1 : Machine}
    (he : ApicAddressSpace.enable a m = .ok m1) :
    regs ((⟨a⟩ : LocalApic A).enableTimer
      (ApicAddressSpace.write a m1 0xf (ApicAddressSpace.read a m1 0xf ||| 0x1ff))) = timerSetup (regs m) := by
  rw [hv.enableTimer_regs, show (0xf : BitVec 32) = (0xf : BitVec 8).setWidth 32 from rfl, hv.write_eq,
    hv.read_eq, hv.enable_eq m m1 he]
  rfl

end View

/-- `x & (1 << i) != 0`, the code's test of a `cpuid` feature bit, is bit `i` of `x`. -/
theorem and_one_shiftLeft_ne_zero (x : BitVec 32) {i : Nat} (hi : i < 32) :
    (x &&& (1 : BitVec 32) <<< i != 0) = x.getLsbD i := by
  rw [show (1 : BitVec 32) <<< i = BitVec.twoPow 32 i from rfl, BitVec.and_twoPow]
  cases x.getLsbD i with
  | false => rfl
  | true =>
    have : BitVec.twoPow 32 i ≠ 0 := fun h => by
      simpa [h, hi] using BitVec.getLsbD_twoPow (w := 32) i i
    simpa using this

namespace XApic

/-- The register file through an `XApic`: register `r` is the word in its slot. -/
def regs (x : XApic) (m : Machine) (r : BitVec 8) : BitVec 32 := x.read m (r.setWidth 32)

/-- Distinct registers have distinct slots: the 256 slots of 16 bytes never wrap around the address space. -/
theorem slot_inj (x : XApic) {r r' : BitVec 8} : x.slot (r.setWidth 32) = x.slot (r'.setWidth 32) ↔ r = r' := by
  simp only [slot]
  constructor <;> intro h
  · bv_omega
  · rw [h]

theorem enable_eq (x : XApic) (m : Machine) :
    x.enable m = if (m.cpuid 1).edx.getLsbD 9 then
      .ok { m with msr := Function.update m.msr ia32ApicBase (m.msr ia32ApicBase ||| 0x800) }
    else .error .unsupported := by
  simp only [enable, and_one_shiftLeft_ne_zero _ (show 9 < 32 by omega), rdmsr_eq, wrmsr_eq]
  cases (m.cpuid 1).edx.getLsbD 9 <;> rfl

theorem registerView (x : XApic) : RegisterView x x.regs where
  read_eq _ _ := rfl
  write_eq m r v := by
    funext r'
    simp only [regs, ApicAddressSpace.write, read, write, Function.update_apply, slot_inj]
  enable_eq m m' h := by
    rw [show ApicAddressSpace.enable x m = x.enable m from rfl, enable_eq] at h
    split at h
    · cases h
      rfl
    · cases h

end XApic

/-- When `kernel_main`'s local APIC setup returns, the register file is as `timerSetup` says. -/
theorem kernelMainApicSetup_regs {localApicAddress : BitVec 64} {m m' : Machine}
    (h : kernelMainApicSetup localApicAddress m = .ok m') :
    (XApic.withAddress localApicAddress).regs m' = timerSetup ((XApic.withAddress localApicAddress).regs m) := by
  cases he : ApicAddressSpace.enable (XApic.withAddress localApicAddress) m with
  | error e =>
    simp only [kernelMainApicSetup, LocalApic.enable_of_error he] at h
    cases h
  | ok m1 =>
    simp only [kernelMainApicSetup, LocalApic.enable_of_ok he] at h
    cases h
    exact (XApic.registerView _).setup_regs he

end Apic

end Ithaca
