import Ithaca.Types

/-!
# The interrupt descriptor table

`x86_64/idt.rs`: an `Idt` is 256 gate descriptors, one for each vector. A `RawGate` holds the handler's address cut
into three offset fields, the code segment's selector and a `GateOptions` word; `RawGate::missing()` is not present,
and `set_addr(addr)` stores the address and sets the present bit. The processor reads the address back as
`offset_high:offset_mid:offset_low` and the gate's type from bits 8 to 11 of the options, so every gate `build_idt`
fills is an interrupt gate to its handler (`withAddr_interruptGate`), which the idle loop's timer is delivered through.
-/

namespace Ithaca

/-- `Selector(u16)`: a segment selector. -/
structure Selector where
  bits : BitVec 16
deriving DecidableEq, Repr

/-- `RawGate`, field by field: the handler's offset in three parts, the code segment's selector, `GateOptions(u16)` and
the reserved word. -/
structure RawGate where
  offsetLow : BitVec 16
  selector : Selector
  options : BitVec 16
  offsetMid : BitVec 16
  offsetHigh : BitVec 32
  reserved : BitVec 32
deriving DecidableEq, Repr

/-- `u16_with_bit(bit, value, set)` of `bitfrob`: `value` with its bit `bit` set when `set`, and cleared otherwise. -/
def u16WithBit (bit : Nat) (value : BitVec 16) (set : Bool) : BitVec 16 :=
  if set then value ||| BitVec.twoPow 16 bit else value &&& ~~~(BitVec.twoPow 16 bit)

/-- `GateOptions::new()`: `0b1110_0000_0000`, the type `0xE` of a 64-bit interrupt gate in bits 8 to 11. -/
def GateOptions.new : BitVec 16 := 0xE00

/-- `GateOptions::set_present(present)`: bit 15. -/
def GateOptions.setPresent (o : BitVec 16) (present : Bool) : BitVec 16 := u16WithBit 15 o present

/-- `RawGate::missing()`. -/
def RawGate.missing : RawGate := ⟨0, ⟨0⟩, GateOptions.new, 0, 0, 0⟩

/-- `RawGate::set_addr(addr)`, where `cs` is the selector `segment::code::read()` returns: `addr as u16`,
`addr.wrapping_shr(16) as u16` and `addr.wrapping_shr(32) as u32` into the offsets, then the present bit. -/
def RawGate.setAddr (g : RawGate) (cs : Selector) (addr : BitVec 64) : RawGate :=
  { g with
    selector := cs
    offsetLow := addr.setWidth 16
    offsetMid := (addr >>> 16).setWidth 16
    offsetHigh := (addr >>> 32).setWidth 32
    options := GateOptions.setPresent g.options true }

/-- `RawGate::with_addr(addr)`. -/
def RawGate.withAddr (cs : Selector) (addr : BitVec 64) : RawGate := RawGate.missing.setAddr cs addr

/-! ## The processor's reading of a gate -/

/-- The handler address the processor reads from a gate: `offset_high:offset_mid:offset_low`. -/
def RawGate.offset (g : RawGate) : BitVec 64 := g.offsetHigh ++ g.offsetMid ++ g.offsetLow

/-- Whether the processor takes the gate as present: bit 15 of the options. -/
def RawGate.present (g : RawGate) : Bool := g.options.getLsbD 15

/-- The gate's type, bits 8 to 11 of the options. -/
def RawGate.gateType (g : RawGate) : BitVec 4 := g.options.extractLsb' 8 4

/-- The gate's privilege level, bits 13 and 14 of the options. -/
def RawGate.dpl (g : RawGate) : BitVec 2 := g.options.extractLsb' 13 2

/-- The gate's interrupt stack table index, bits 0 to 2 of the options (0: the current stack). -/
def RawGate.ist (g : RawGate) : BitVec 3 := g.options.extractLsb' 0 3

/-- A present 64-bit interrupt gate of privilege level 0 on the current stack, through which the processor enters the
handler at `addr` in the code segment `cs`, with IF clear. -/
structure InterruptGate (g : RawGate) (cs : Selector) (addr : BitVec 64) : Prop where
  present : g.present = true
  type : g.gateType = 0xE
  dpl : g.dpl = 0
  ist : g.ist = 0
  selector : g.selector = cs
  offset : g.offset = addr

/-- The three offset fields that `set_addr` cuts a 64-bit address into give the address back. -/
theorem offset_setAddr (g : RawGate) (cs : Selector) (addr : BitVec 64) : (g.setAddr cs addr).offset = addr := by
  apply BitVec.eq_of_getLsbD_eq
  intro i
  have := i.isLt
  simp only [RawGate.offset, RawGate.setAddr, BitVec.getLsbD_append, BitVec.getLsbD_setWidth,
    BitVec.getLsbD_ushiftRight]
  by_cases h1 : (i : Nat) < 16
  · simp [h1]
  · by_cases h2 : (i : Nat) - 16 < 16
    · simp [h1, h2, show 16 + ((i : Nat) - 16) = i by omega]
    · simp [h1, h2, show (i : Nat) - 16 - 16 < 32 by omega, show 32 + ((i : Nat) - 16 - 16) = i by omega]

/-- `with_addr(addr)` is an interrupt gate to `addr`: its options are `0x8E00`. -/
theorem withAddr_interruptGate (cs : Selector) (addr : BitVec 64) :
    InterruptGate (RawGate.withAddr cs addr) cs addr := by
  have hopt : (RawGate.withAddr cs addr).options = 0x8E00 :=
    show GateOptions.setPresent GateOptions.new true = 0x8E00 by decide
  exact ⟨by simp only [RawGate.present, hopt]; decide, by simp only [RawGate.gateType, hopt]; decide,
    by simp only [RawGate.dpl, hopt]; decide, by simp only [RawGate.ist, hopt]; decide, rfl, offset_setAddr _ cs addr⟩

/-! ## The table -/

/-- The vectors whose gate `build_idt` fills: each exception the `Idt` names (all but 9, 15, 22 to 27 and 31, which it
keeps reserved), and vector 32 (`gates[0]`) for the timer. -/
def handledVectors : List Nat := [0, 1, 2, 3, 4, 5, 6, 7, 8, 10, 11, 12, 13, 14, 16, 17, 18, 19, 20, 21, 28, 29, 30, 32]

/-- `build_idt()`, gate by vector: the gate of a handled vector is `with_addr` of its handler's address `handler v`,
in the code segment `cs`; every other gate is `missing()` (`..Idt::empty()`). -/
def buildIdt (cs : Selector) (handler : Nat → BitVec 64) (v : Fin 256) : RawGate :=
  if v.val ∈ handledVectors then RawGate.withAddr cs (handler v) else RawGate.missing

/-- The timer's gate, vector 32, is an interrupt gate to its handler. -/
theorem buildIdt_timer (cs : Selector) (handler : Nat → BitVec 64) :
    InterruptGate (buildIdt cs handler 32) cs (handler 32) := by
  rw [buildIdt, if_pos (by decide)]
  exact withAddr_interruptGate cs _

end Ithaca
