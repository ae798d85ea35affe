import Ithaca.Apic
import Ithaca.Idt
import Mathlib.Logic.Relation
import Mathlib.Data.Nat.Defs

/-!
# The idle loop and the local APIC timer

After its setup `kernel_main` ends in `loop { interrupts::enable(); interrupts::wait(); }`. The timer `enable_timer`
started requests vector 32 periodically, and `build_idt` puts `timer_handler`, which only logs, in the gate of vector
32; nothing writes the local APIC's EOI register. The local APIC here is the register file the setup programs, with its
request and in-service registers: it presents its highest requested vector when that vector's priority class is above
the class of the task priority and of the highest vector in service. `timerHandler_at_most_once`: in every run of the
loop from the state the setup leaves, `timer_handler` is entered at most once, with IF clear, and vector 32 then stays
in service.
-/

namespace Ithaca

namespace Apic

/-- The local APIC as it delivers interrupts: the register file, and the interrupt request and in-service registers,
bit `v` for vector `v`. -/
structure Lapic where
  regs : BitVec 8 → BitVec 32
  irr : BitVec 256
  isr : BitVec 256

namespace Lapic

/-- The vector of the timer's LVT entry `0x32`, its bits 0 to 7. -/
def timerVector (l : Lapic) : Nat := (l.regs 0x32).toNat % 2 ^ 8

/-- The timer's count runs out: its vector is requested unless the APIC is software-disabled or the timer masked. -/
def timerFire (l : Lapic) : Lapic :=
  if (l.regs 0xf).getLsbD 8 && !(l.regs 0x32).getLsbD 16 then
    { l with irr := l.irr ||| BitVec.twoPow 256 l.timerVector }
  else l

/-- The processor priority's class: the task priority's or that of the highest vector in service, the higher. -/
def pprClass (l : Lapic) : Nat := max ((l.regs 0x8).toNat % 2 ^ 8 / 16) (l.isr.toNat.log2 / 16)

/-- The vector presented to the processor: the highest requested, if its class is above the processor priority's. -/
def pending (l : Lapic) : Option Nat :=
  if l.irr ≠ 0 ∧ l.pprClass < l.irr.toNat.log2 / 16 then some l.irr.toNat.log2 else none

/-- The processor accepts vector `v`: it leaves the request register for the in-service register. -/
def accept (l : Lapic) (v : Nat) : Lapic :=
  { l with irr := l.irr &&& ~~~BitVec.twoPow 256 v, isr := l.isr ||| BitVec.twoPow 256 v }

/-- A write to register `r`; one to the EOI register `0xb` takes the highest vector in service out of service. -/
def write (l : Lapic) (r : BitVec 8) (value : BitVec 32) : Lapic :=
  if r = 0xb then { l with isr := l.isr &&& ~~~BitVec.twoPow 256 l.isr.toNat.log2 }
  else { l with regs := Function.update l.regs r value }

end Lapic

/-- Where the processor is: in the idle loop before `interrupts::enable()` or before (or halted in)
`interrupts::wait()`, or in the handler at `addr`. -/
inductive Pc where
  | enable
  | wait
  | handler (addr : BitVec 64)
deriving DecidableEq, Repr

/-- The processor in the idle loop: its local APIC, the interrupt flag, where it is, and how many times it has entered
`timer_handler` so far. -/
structure Cpu where
  lapic : Lapic
  intr : Bool
  pc : Pc
  timerEntries : Nat

/-- `timer_handler`'s writes to the local APIC, in order: none, it only logs. -/
def timerHandlerWrites : List (BitVec 8 × BitVec 32) := []

/-- One step of the processor in the idle loop, or of its timer, with the interrupt descriptor table `idt` and
`timer_handler` at `timerHandler`. -/
inductive IdleStep (idt : Fin 256 → RawGate) (timerHandler : BitVec 64) : Cpu → Cpu → Prop
  /-- `interrupts::enable()`: `sti`. -/
  | enable {c : Cpu} : c.pc = .enable → IdleStep idt timerHandler c { c with intr := true, pc := .wait }
  /-- The timer's count runs out, at any moment. -/
  | fire {c : Cpu} : IdleStep idt timerHandler c { c with lapic := c.lapic.timerFire }
  /-- With IF set, the processor accepts the vector presented and enters the handler its gate names; IF stays set only
  through a trap gate. -/
  | deliver {c : Cpu} {v : Fin 256} : c.intr = true → c.lapic.pending = some v → (idt v).present = true →
      IdleStep idt timerHandler c
        { c with lapic := c.lapic.accept v, intr := (idt v).gateType == 0xF, pc := .handler (idt v).offset,
                 timerEntries := c.timerEntries + if (idt v).offset = timerHandler then 1 else 0 }
  /-- `timer_handler` makes its writes and returns by `iretq`, which sets IF again; the loop goes on. -/
  | timerReturn {c : Cpu} : c.pc = .handler timerHandler →
      IdleStep idt timerHandler c
        { c with lapic := timerHandlerWrites.foldl (fun l w => l.write w.1 w.2) c.lapic, intr := true,
                 pc := .enable }

/-- The processor as `kernel_main`'s setup leaves it for the loop: interrupts disabled, the local APIC's register file
`regs`, nothing requested, and whatever the firmware left in service. -/
def Cpu.afterSetup (regs : BitVec 8 → BitVec 32) (isr : BitVec 256) : Cpu :=
  ⟨⟨regs, 0, isr⟩, false, .enable, 0⟩

section Timer

variable {regs : BitVec 8 → BitVec 32}

theorem timerSetup_svr : (timerSetup regs 0xf).getLsbD 8 = true := by
  simp (disch := decide) only [timerSetup, Function.update_noteq, BitVec.getLsbD_or]
  simp

theorem timerSetup_lvt : timerSetup regs 0x32 = packTimerLvtEntry 32 .periodic .edge false := by
  simp [timerSetup]

/-- After the setup the timer requests vector 32. -/
theorem timerFire_of_regs {l : Lapic} (h : l.regs = timerSetup regs) :
    l.timerFire = { l with irr := l.irr ||| BitVec.twoPow 256 32 } := by
  have hv : l.timerVector = 32 := by
    simp only [Lapic.timerVector, h, timerSetup_lvt]
    decide
  have hm : (timerSetup regs 0x32).getLsbD 16 = false := by
    rw [timerSetup_lvt]
    decide
  simp only [Lapic.timerFire, h, timerSetup_svr, hm, hv]
  rfl

theorem log2_twoPow_32 : (BitVec.twoPow 256 32).toNat.log2 = 32 := by
  rw [BitVec.toNat_twoPow, Nat.mod_eq_of_lt (by decide), Nat.log2_two_pow]

/-- With vector 32 in service, the processor priority's class is at least 32's. -/
theorem two_le_pprClass {l : Lapic} (h : l.isr.getLsbD 32 = true) : 2 ≤ l.pprClass := by
  have hge : 2 ^ 32 ≤ l.isr.toNat := Nat.testBit_implies_ge h
  have hlog : 32 ≤ l.isr.toNat.log2 := (Nat.le_log2 (by omega)).2 hge
  simp only [Lapic.pprClass]
  omega

/-- With only vector 32 requested, it is the vector presented, if any. -/
theorem pending_of_irr {l : Lapic} {v : Nat} (hirr : l.irr = 0 ∨ l.irr = BitVec.twoPow 256 32)
    (h : l.pending = some v) : l.irr = BitVec.twoPow 256 32 ∧ v = 32 ∧ l.pprClass < 2 := by
  simp only [Lapic.pending] at h
  split at h
  · rename_i hc
    cases h
    rcases hirr with h0 | h32
    · exact absurd h0 hc.1
    · rw [h32, log2_twoPow_32] at hc ⊢
      exact ⟨rfl, rfl, hc.2⟩
  · cases h

theorem accept_32 (l : Lapic) (h : l.irr = BitVec.twoPow 256 32) :
    (l.accept 32).irr = 0 ∧ (l.accept 32).isr.getLsbD 32 = true := by
  constructor
  · ext ⟨i, hi⟩
    simp only [Lapic.accept, h, BitVec.getLsbD_and, BitVec.getLsbD_not, BitVec.getLsbD_twoPow]
    cases decide (32 = i) <;> simp
  · simp [Lapic.accept, BitVec.getLsbD_twoPow]

/-- What holds in every state of the idle loop from the register file `timerSetup base`: the register file is as the
setup left it, only the timer's vector can be requested, a handler running is `timer_handler`, with IF clear, and
`timer_handler` has not been entered, or has been once and vector 32 is still in service. -/
structure TimerInv (timerHandler : BitVec 64) (base : BitVec 8 → BitVec 32) (c : Cpu) : Prop where
  regs : c.lapic.regs = timerSetup base
  irr : c.lapic.irr = 0 ∨ c.lapic.irr = BitVec.twoPow 256 32
  handler : ∀ a, c.pc = .handler a → a = timerHandler ∧ c.intr = false
  entries : c.timerEntries = 0 ∨ c.timerEntries = 1 ∧ c.lapic.isr.getLsbD 32 = true

variable {idt : Fin 256 → RawGate} {cs : Selector} {timerHandler : BitVec 64}

theorem timerInv_afterSetup (isr : BitVec 256) :
    TimerInv timerHandler regs (Cpu.afterSetup (timerSetup regs) isr) :=
  ⟨rfl, .inl rfl, nofun, .inl rfl⟩

/-- Every step of the idle loop keeps `TimerInv`, when the gate of vector 32 is an interrupt gate to
`timer_handler`. -/
theorem IdleStep.timerInv (hg : InterruptGate (idt 32) cs timerHandler) {c c' : Cpu}
    (hs : IdleStep idt timerHandler c c') (h : TimerInv timerHandler regs c) : TimerInv timerHandler regs c' := by
  cases hs with
  | enable _ => exact ⟨h.regs, h.irr, nofun, h.entries⟩
  | fire =>
    have hf := timerFire_of_regs h.regs
    refine ⟨by simpa [hf] using h.regs, .inr ?_, h.handler, by simpa [hf] using h.entries⟩
    rcases h.irr with hirr | hirr <;> simp [hf, hirr]
  | deliver _ hp _ =>
    obtain ⟨hirr, hv, hppr⟩ := pending_of_irr h.irr hp
    obtain rfl : _ = (32 : Fin 256) := Fin.ext hv
    have hacc := accept_32 _ hirr
    refine ⟨h.regs, .inl hacc.1, fun a ha => ⟨by rw [← Pc.handler.inj ha, hg.offset], by simp [hg.type]⟩,
      .inr ⟨?_, hacc.2⟩⟩
    rcases h.entries with h0 | ⟨-, hin⟩
    · simp [h0, hg.offset]
    · exact absurd (two_le_pprClass hin) (by omega)
  | timerReturn _ => exact ⟨h.regs, h.irr, nofun, h.entries⟩

/-- In every run of the idle loop from the state `kernel_main`'s local APIC setup leaves, whatever the machine was
before it and whatever was in service, with the table `build_idt` builds: `timer_handler` is entered at most once and
always with IF clear, and once it has been, vector 32 is in service. -/
theorem timerHandler_at_most_once {localApicAddress : BitVec 64} {m m' : Machine}
    (hsetup : kernelMainApicSetup localApicAddress m = .ok m') (cs : Selector) (handler : Nat → BitVec 64)
    (isr : BitVec 256) {c : Cpu}
    (hc : Relation.ReflTransGen (IdleStep (buildIdt cs handler) (handler 32))
      (Cpu.afterSetup ((XApic.withAddress localApicAddress).regs m') isr) c) :
    c.timerEntries ≤ 1 ∧ (c.timerEntries = 1 → c.lapic.isr.getLsbD 32 = true) ∧
      ∀ a, c.pc = .handler a → a = handler 32 ∧ c.intr = false := by
  rw [kernelMainApicSetup_regs hsetup] at hc
  have h : TimerInv (handler 32) ((XApic.withAddress localApicAddress).regs m) c := by
    induction hc with
    | refl => exact timerInv_afterSetup isr
    | tail _ hs ih => exact hs.timerInv (buildIdt_timer cs handler) ih
  rcases h.entries with h0 | ⟨h1, hin⟩
  · exact ⟨by omega, by omega, h.handler⟩
  · exact ⟨by omega, fun _ => hin, h.handler⟩

/-- With only vector 32 requested and the processor priority below its class, vector 32 is presented. -/
theorem pending_eq_timer {l : Lapic} (hirr : l.irr = BitVec.twoPow 256 32) (hp : l.pprClass < 2) :
    l.pending = some 32 := by
  have hne : BitVec.twoPow 256 32 ≠ 0 := by decide
  simp only [Lapic.pending, hirr, log2_twoPow_32]
  exact if_pos ⟨hne, hp⟩

/-- A machine whose `cpuid` reports an xAPIC, with every MSR and every word of memory 0. -/
def apicMachine : Machine := ⟨fun _ => 0, fun _ => 0, fun _ => ⟨0, 0x200⟩⟩

/-- From that machine, the setup and then `sti`; the timer fires, the processor enters `timer_handler`, which returns,
and the timer fires again: the handler has been entered once, and the timer's second request waits. -/
theorem timerHandler_at_most_once_zero :
    ∃ m' c, kernelMainApicSetup 0xfee00000 apicMachine = .ok m' ∧
      Relation.ReflTransGen (IdleStep (buildIdt ⟨0x28⟩ fun _ => 0xffffffff80001234) 0xffffffff80001234)
        (Cpu.afterSetup ((XApic.withAddress 0xfee00000).regs m') 0) c ∧
      c.timerEntries = 1 ∧ c.lapic.irr = BitVec.twoPow 256 32 ∧
      (c.timerEntries ≤ 1 ∧ (c.timerEntries = 1 → c.lapic.isr.getLsbD 32 = true) ∧
        ∀ a, c.pc = .handler a → a = 0xffffffff80001234 ∧ c.intr = false) := by
  obtain ⟨m', hm'⟩ : ∃ m', kernelMainApicSetup 0xfee00000 apicMachine = .ok m' := ⟨_, rfl⟩
  have hregs : (XApic.withAddress 0xfee00000).regs m' = timerSetup fun _ => 0 := kernelMainApicSetup_regs hm'
  have hg := buildIdt_timer ⟨0x28⟩ fun _ => 0xffffffff80001234
  have hfire : (Cpu.afterSetup ((XApic.withAddress 0xfee00000).regs m') 0).lapic.timerFire =
      ⟨timerSetup (fun _ => 0), BitVec.twoPow 256 32, 0⟩ := by
    rw [timerFire_of_regs hregs]
    simp only [Cpu.afterSetup, hregs]
    exact congrArg (Lapic.mk _ · 0) BitVec.zero_or
  have hp : (⟨timerSetup (fun _ => 0), BitVec.twoPow 256 32, 0⟩ : Lapic).pending = some 32 := by
    refine pending_eq_timer rfl ?_
    simp (disch := decide) [Lapic.pprClass, timerSetup, Function.update_noteq]
  have hrun := (Relation.ReflTransGen.refl : Relation.ReflTransGen (IdleStep _ _)
      (Cpu.afterSetup ((XApic.withAddress 0xfee00000).regs m') 0) _)
    |>.tail (IdleStep.enable rfl) |>.tail IdleStep.fire
    |>.tail (IdleStep.deliver (v := 32) rfl (by rw [hfire]; exact hp) hg.present)
    |>.tail (IdleStep.timerReturn (congrArg Pc.handler hg.offset)) |>.tail IdleStep.fire
  refine ⟨m', _, hm', hrun, by dsimp only [Cpu.afterSetup]; rw [hg.offset, if_pos rfl], ?_,
    timerHandler_at_most_once hm' _ _ 0 hrun⟩
  have hacc := accept_32 ⟨timerSetup (fun _ => 0), BitVec.twoPow 256 32, 0⟩ rfl
  simp only [timerHandlerWrites, List.foldl_nil, hfire]
  rw [timerFire_of_regs rfl]
  exact (congrArg (· ||| BitVec.twoPow 256 32) hacc.1).trans BitVec.zero_or

end Timer

end Apic

end Ithaca
