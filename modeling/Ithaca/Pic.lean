import Ithaca.Types

/-!
# The 8259 interrupt controllers

`x86_64/pic.rs` drives the master 8259A (ports `0x20`, `0x21`) and the slave (`0xa0`, `0xa1`), whose output is the
master's line 2. `init` gives each controller its four initialization words and restores the masks it read, and
`end_of_interrupt(vector, pic1_offset, pic2_offset)` sends the non-specific EOI `0x20` to the one controller whose eight
vectors hold `vector`. A `Controller` is the 8259A's state in fully nested mode: its phase in the initialization
sequence, what the words set, and its mask, request and in-service registers. Over every run of raises, mask writes,
`init`s, acknowledges and handler returns (`EoiStep`), the master has as many lines in service as handlers run plus
slave interrupts ended (`endOfInterrupt_strands_master`): the EOI of a slave interrupt never reaches the master.
-/

namespace Ithaca

namespace Pic

/-- The initialization word an 8259A waits for on its data port, or `ready` once the sequence is done. -/
inductive Phase where
  | icw2
  | icw3
  | icw4
  | ready
deriving DecidableEq, Repr

/-- An 8259A: where it is in its initialization sequence, whether ICW1 asked for an ICW4 (bit 0) and said the
controller is single (bit 1), its vector base (bits 3 to 7 of ICW2), ICW3 (a master's slave lines, or a slave's cascade
identity), ICW4, and its interrupt mask, request and in-service registers, bit `l` for line `l`. -/
structure Controller where
  phase : Phase
  ic4 : Bool
  single : Bool
  base : BitVec 8
  icw3 : BitVec 8
  icw4 : BitVec 8
  imr : BitVec 8
  irr : BitVec 8
  isr : BitVec 8
deriving DecidableEq, Repr

/-- The bit of line `l`. -/
def lineBit (l : Nat) : BitVec 8 := BitVec.twoPow 8 l

/-- The highest-priority line among the bits of `b`: its lowest set bit. -/
def highest (b : BitVec 8) : Option (Fin 8) := (List.finRange 8).find? fun l => b.getLsbD l

namespace Controller

/-- ICW1 `v`: the initialization sequence starts over and the mask is cleared; bit 0 says an ICW4 will follow, and
without one ICW4's settings are cleared; bit 1 says the controller is single. -/
def icw1 (c : Controller) (v : BitVec 8) : Controller :=
  { c with phase := .icw2, ic4 := v.getLsbD 0, single := v.getLsbD 1, imr := 0,
           icw4 := if v.getLsbD 0 then c.icw4 else 0 }

/-- OCW2 `v`: a non-specific EOI (bits 7 to 5 `001`) takes the highest-priority line out of service. The specific EOI
and the rotation commands, which no code here sends, are not modelled. -/
def ocw2 (c : Controller) (v : BitVec 8) : Controller :=
  if v &&& 0xe0 = 0x20 then
    match highest c.isr with
    | none => c
    | some l => { c with isr := c.isr &&& ~~~lineBit l }
  else c

/-- A write to the command port: ICW1 when bit 4 is set; otherwise OCW3 when bit 3 is set, which only selects what a
read of the command port returns and is not modelled, and OCW2 when it is clear. -/
def command (c : Controller) (v : BitVec 8) : Controller :=
  if v.getLsbD 4 then c.icw1 v else if v.getLsbD 3 then c else c.ocw2 v

/-- A write to the data port: the initialization word the controller waits for, or the mask (OCW1) once it is ready.
ICW2 keeps bits 3 to 7, the vector of line 0; ICW3 is skipped for a single controller and ICW4 unless ICW1 asked. -/
def data (c : Controller) (v : BitVec 8) : Controller :=
  match c.phase with
  | .icw2 => { c with base := v &&& 0xf8, phase := if c.single then (if c.ic4 then .icw4 else .ready) else .icw3 }
  | .icw3 => { c with icw3 := v, phase := if c.ic4 then .icw4 else .ready }
  | .icw4 => { c with icw4 := v, phase := .ready }
  | .ready => { c with imr := v }

/-- No line of priority `n` or higher is in service: bits 0 to `n` of the in-service register are clear. -/
def clearUpTo (c : Controller) (n : Fin 8) : Bool := c.isr.toNat % 2 ^ (n.val + 1) == 0

/-- The line a controller with the requests `req` asks to have served: its highest-priority unmasked request, unless a
line of that priority or higher is in service. -/
def passes (c : Controller) (req : BitVec 8) : Option (Fin 8) :=
  match highest (req &&& ~~~c.imr) with
  | none => none
  | some n => if c.clearUpTo n then some n else none

/-- Line `l` goes in service and its request is taken. -/
def serve (c : Controller) (l : Fin 8) : Controller :=
  { c with isr := c.isr ||| lineBit l, irr := c.irr &&& ~~~lineBit l }

/-- The vector of line `l`: the vector base in bits 3 to 7, whose low bits are clear, and the line in bits 0 to 2. -/
def vector (c : Controller) (l : Fin 8) : BitVec 8 := c.base + BitVec.ofNat 8 l

end Controller

/-- The master and the slave. -/
structure Pics where
  master : Controller
  slave : Controller
deriving DecidableEq, Repr

/-- `PIC1_COMMAND = 0x0020`. -/
def pic1Command : BitVec 16 := 0x20

/-- `PIC1_DATA = 0x0021`. -/
def pic1Data : BitVec 16 := 0x21

/-- `PIC2_COMMAND = 0x00a0`. -/
def pic2Command : BitVec 16 := 0xa0

/-- `PIC2_DATA = 0x00a1`. -/
def pic2Data : BitVec 16 := 0xa1

namespace Pics

/-- `out8(port, value)` as the two controllers see it; any other port, such as the delay port `0x80`, is not theirs. -/
def out8 (p : Pics) (port : BitVec 16) (value : BitVec 8) : Pics :=
  if port = pic1Command then { p with master := p.master.command value }
  else if port = pic1Data then { p with master := p.master.data value }
  else if port = pic2Command then { p with slave := p.slave.command value }
  else if port = pic2Data then { p with slave := p.slave.data value }
  else p

/-- `in8(port)` from the two controllers: the data port reads the mask and the command port the request register; any
other port is not theirs and reads as a floating bus. -/
def in8 (p : Pics) (port : BitVec 16) : BitVec 8 :=
  if port = pic1Command then p.master.irr
  else if port = pic1Data then p.master.imr
  else if port = pic2Command then p.slave.irr
  else if port = pic2Data then p.slave.imr
  else 0xff

/-- A device raises interrupt line `irq`: lines 0 to 7 are the master's, 8 to 15 the slave's. -/
def raise (p : Pics) (irq : Fin 16) : Pics :=
  if irq.val < 8 then { p with master := { p.master with irr := p.master.irr ||| lineBit irq } }
  else { p with slave := { p.slave with irr := p.slave.irr ||| lineBit (irq - 8) } }

/-- The slave's output: it has a line to be served. -/
def slaveOut (p : Pics) : Bool := (p.slave.passes p.slave.irr).isSome

/-- The master's requests: its own lines, with line 2 the slave's output. -/
def masterReq (p : Pics) : BitVec 8 := (p.master.irr &&& ~~~lineBit 2) ||| (if p.slaveOut then lineBit 2 else 0)

/-- The master's line that interrupts the processor, if any. -/
def intr (p : Pics) : Option (Fin 8) := p.master.passes p.masterReq

/-- The processor acknowledges the interrupt: the master puts the line in service and gives its vector, unless ICW3 has
a slave on that line, which then puts its own line in service and gives that line's vector; a slave with nothing to be
served gives the vector of its line 7. -/
def acknowledge (p : Pics) : Option (BitVec 8 × Pics) :=
  match p.intr with
  | none => none
  | some n =>
    if p.master.icw3.getLsbD n then
      match p.slave.passes p.slave.irr with
      | some m => some (p.slave.vector m, ⟨p.master.serve n, p.slave.serve m⟩)
      | none => some (p.slave.vector 7, ⟨p.master.serve n, p.slave⟩)
    else some (p.master.vector n, ⟨p.master.serve n, p.slave⟩)

end Pics

/-! ## The driver -/

/-- `ICW1_INIT = 0x10`. -/
def icw1Init : BitVec 8 := 0x10

/-- `ICW1_ICW4 = 0x01`. -/
def icw1Icw4 : BitVec 8 := 0x01

/-- `ICW4_8086 = 0x01`. -/
def icw4Mode8086 : BitVec 8 := 0x01

/-- `PIC_EOI = 0x20`. -/
def picEoi : BitVec 8 := 0x20

/-- `read_masks()`: `[in8(PIC1_DATA), in8(PIC2_DATA)]`. -/
def readMasks (p : Pics) : BitVec 8 × BitVec 8 := (p.in8 pic1Data, p.in8 pic2Data)

/-- `write_masks(masks)`. -/
def writeMasks (masks : BitVec 8 × BitVec 8) (p : Pics) : Pics := (p.out8 pic1Data masks.1).out8 pic2Data masks.2

/-- `io_pause()`: `out8(0x80, 0)`. -/
def ioPause (p : Pics) : Pics := p.out8 0x80 0

/-- `init(pic1_offset, pic2_offset)`, write by write. -/
def init (pic1Offset pic2Offset : BitVec 8) (p : Pics) : Pics :=
  let masks := readMasks p
  p |>.out8 pic1Command (icw1Init ||| icw1Icw4) |> ioPause |>.out8 pic2Command (icw1Init ||| icw1Icw4) |> ioPause
    |>.out8 pic1Data pic1Offset |> ioPause |>.out8 pic2Data pic2Offset |> ioPause
    |>.out8 pic1Data 4 |> ioPause |>.out8 pic2Data 2 |> ioPause
    |>.out8 pic1Data icw4Mode8086 |> ioPause |>.out8 pic2Data icw4Mode8086 |> ioPause
    |> writeMasks masks

/-- `a + b` on `u8` in a debug build. -/
def u8AddOrPanic (a b : BitVec 8) : Except Panic (BitVec 8) :=
  if a.toNat + b.toNat < 2 ^ 8 then .ok (a + b) else .error ⟨"attempt to add with overflow"⟩

/-- The panic of `end_of_interrupt` for a vector of neither controller. -/
def invalidVectorPanic : Panic := ⟨"invalid irq vector for pic"⟩

/-- `end_of_interrupt(vector, pic1_offset, pic2_offset)`: `(start..start + 8).contains(&vector)` for the master's
range, then the slave's. -/
def endOfInterrupt (vector pic1Offset pic2Offset : BitVec 8) (p : Pics) : Except Panic Pics := do
  let end1 ← u8AddOrPanic pic1Offset 8
  if pic1Offset ≤ vector ∧ vector < end1 then return p.out8 pic1Command picEoi
  let end2 ← u8AddOrPanic pic2Offset 8
  if pic2Offset ≤ vector ∧ vector < end2 then return p.out8 pic2Command picEoi
  throw invalidVectorPanic

/-- `PIC1_OFFSET = 32` of `InterruptController`. -/
def interruptControllerPic1Offset : BitVec 8 := 32

/-- `PIC2_OFFSET = 40` of `InterruptController`. -/
def interruptControllerPic2Offset : BitVec 8 := 40

/-- `InterruptController::Pic.end_of_interrupt(vector)`. -/
def InterruptController.endOfInterrupt (vector : BitVec 8) (p : Pics) : Except Panic Pics :=
  Pic.endOfInterrupt vector interruptControllerPic1Offset interruptControllerPic2Offset p

/-! ## What each port write does -/

section Ports

variable (p : Pics) (v : BitVec 8)

theorem out8_pic1Command : p.out8 pic1Command v = { p with master := p.master.command v } := if_pos rfl

theorem out8_pic1Data : p.out8 pic1Data v = { p with master := p.master.data v } := by
  rw [Pics.out8, if_neg (by decide), if_pos rfl]

theorem out8_pic2Command : p.out8 pic2Command v = { p with slave := p.slave.command v } := by
  rw [Pics.out8, if_neg (by decide), if_neg (by decide), if_pos rfl]

theorem out8_pic2Data : p.out8 pic2Data v = { p with slave := p.slave.data v } := by
  rw [Pics.out8, if_neg (by decide), if_neg (by decide), if_neg (by decide), if_pos rfl]

/-- The delay write goes to neither controller. -/
theorem ioPause_eq : ioPause p = p := by
  rw [ioPause, Pics.out8, if_neg (by decide), if_neg (by decide), if_neg (by decide), if_neg (by decide)]

theorem readMasks_eq : readMasks p = (p.master.imr, p.slave.imr) := by
  simp only [readMasks, Pics.in8, if_neg (show pic1Data ≠ pic1Command by decide),
    if_neg (show pic2Data ≠ pic1Command by decide), if_neg (show pic2Data ≠ pic1Data by decide),
    if_neg (show pic2Data ≠ pic2Command by decide), if_true]

end Ports

section Words

variable {c : Controller} {v : BitVec 8}

theorem command_of_icw1 (h : v.getLsbD 4 = true) : c.command v = c.icw1 v := by
  simp [Controller.command, h]

theorem command_of_ocw2 (h4 : v.getLsbD 4 = false) (h3 : v.getLsbD 3 = false) : c.command v = c.ocw2 v := by
  simp [Controller.command, h4, h3]

theorem data_icw2 (h : c.phase = .icw2) (hs : c.single = false) :
    c.data v = { c with base := v &&& 0xf8, phase := .icw3 } := by
  simp [Controller.data, h, hs]

theorem data_icw3 (h : c.phase = .icw3) (hc : c.ic4 = true) : c.data v = { c with icw3 := v, phase := .icw4 } := by
  simp [Controller.data, h, hc]

theorem data_icw4 (h : c.phase = .icw4) : c.data v = { c with icw4 := v, phase := .ready } := by
  simp [Controller.data, h]

theorem data_ready (h : c.phase = .ready) : c.data v = { c with imr := v } := by
  simp [Controller.data, h]

/-- The words `init` gives a controller from any state: ICW1 `0x11`, the offset, the ICW3 `w3` and ICW4 `1`,
then the mask `m` it read. -/
theorem init_words (c : Controller) (o w3 m : BitVec 8) :
    ((((c.command (icw1Init ||| icw1Icw4)).data o).data w3).data icw4Mode8086).data m =
      { c with phase := .ready, ic4 := true, single := false, base := o &&& 0xf8, icw3 := w3, icw4 := 1,
               imr := m } := by
  have h4 : (icw1Init ||| icw1Icw4).getLsbD 4 = true := by decide
  have h0 : (icw1Init ||| icw1Icw4).getLsbD 0 = true := by decide
  have h1 : (icw1Init ||| icw1Icw4).getLsbD 1 = false := by decide
  rw [command_of_icw1 h4]
  simp only [Controller.icw1, h0, h1, if_true]
  simp (disch := rfl) only [data_icw2, data_icw3, data_icw4, data_ready]
  rfl

end Words

/-- `init` from any state, write by write: each controller gets its words, and the delay writes reach neither. -/
theorem init_eq (pic1Offset pic2Offset : BitVec 8) (p : Pics) :
    init pic1Offset pic2Offset p =
      ⟨{ p.master with phase := .ready, ic4 := true, single := false, base := pic1Offset &&& 0xf8, icw3 := 4,
                       icw4 := 1 },
       { p.slave with phase := .ready, ic4 := true, single := false, base := pic2Offset &&& 0xf8, icw3 := 2,
                      icw4 := 1 }⟩ := by
  simp only [init, readMasks_eq, writeMasks, ioPause_eq, out8_pic1Command, out8_pic1Data, out8_pic2Command,
    out8_pic2Data, init_words]

/-! ## End of interrupt -/

theorem highest_getLsbD {b : BitVec 8} {n : Fin 8} (h : highest b = some n) : b.getLsbD n = true := by
  unfold highest at h
  exact List.find?_some (p := fun l : Fin 8 => b.getLsbD l) h

/-- A line a controller passes is an unmasked request with no line of its priority or higher in service. -/
theorem passes_spec {c : Controller} {req : BitVec 8} {n : Fin 8} (h : c.passes req = some n) :
    (req &&& ~~~c.imr).getLsbD n = true ∧ c.clearUpTo n = true := by
  unfold Controller.passes at h
  split at h
  · cases h
  · rename_i m hm
    split at h
    · cases h
      exact ⟨highest_getLsbD hm, ‹_›⟩
    · cases h

/-- A line in service blocks every line of its priority and below. -/
theorem lt_of_clearUpTo {c : Controller} {k : Nat} {n : Fin 8} (hk : c.isr.getLsbD k = true)
    (h : c.clearUpTo n = true) : n.val < k := by
  by_contra hn
  have hz : c.isr.toNat % 2 ^ (n.val + 1) = 0 := by simpa [Controller.clearUpTo] using h
  have hb := Nat.testBit_mod_two_pow c.isr.toNat (n.val + 1) k
  rw [hz, Nat.zero_testBit, ← BitVec.getLsbD, hk] at hb
  simp at hb
  omega

/-- No line is in service among the bits of `b` when `highest` finds none. -/
theorem getLsbD_of_highest_eq_none {b : BitVec 8} (h : highest b = none) (l : Fin 8) : b.getLsbD l = false := by
  unfold highest at h
  simpa using List.find?_eq_none.1 h l (List.mem_finRange l)

/-- `end_of_interrupt` returns only with the master's EOI, for a vector of the master's eight from `pic1_offset`, or
with the slave's, for any other vector it accepts. -/
theorem endOfInterrupt_ok {pic1Offset pic2Offset v : BitVec 8} {p q : Pics}
    (h : endOfInterrupt v pic1Offset pic2Offset p = .ok q) :
    (pic1Offset.toNat ≤ v.toNat ∧ v.toNat < pic1Offset.toNat + 8 ∧ q = { p with master := p.master.ocw2 picEoi }) ∨
      (¬(pic1Offset.toNat ≤ v.toNat ∧ v.toNat < pic1Offset.toNat + 8) ∧
        q = { p with slave := p.slave.ocw2 picEoi }) := by
  have h4 : picEoi.getLsbD 4 = false := by decide
  have h3 : picEoi.getLsbD 3 = false := by decide
  simp only [endOfInterrupt, u8AddOrPanic] at h
  split at h
  · rename_i h1
    simp only [except_ok_bind, BitVec.le_def, BitVec.lt_def, BitVec.toNat_add_of_lt (y := 8) h1] at h
    split at h
    · rename_i hv
      exact .inl ⟨hv.1, hv.2, by cases h; rw [out8_pic1Command, command_of_ocw2 h4 h3]⟩
    · rename_i hv
      refine .inr ⟨hv, ?_⟩
      split at h
      · simp only [except_ok_bind] at h
        split at h
        · cases h; rw [out8_pic2Command, command_of_ocw2 h4 h3]
        · cases h
      · cases h
  · cases h

/-! ## Runs under `end_of_interrupt` -/

/-- The lines a controller has in service. -/
def Controller.inService (c : Controller) : Finset Nat := (Finset.range 8).filter fun l => c.isr.getLsbD l

theorem Controller.card_inService_le (c : Controller) : c.inService.card ≤ 8 :=
  (Finset.card_filter_le _ _).trans (Finset.card_range 8).le

/-- A line passed is not in service, and serving it puts it there. -/
theorem Controller.card_inService_serve {c : Controller} {n : Fin 8} (h : c.clearUpTo n = true) :
    (c.serve n).inService.card = c.inService.card + 1 := by
  have hn : n.val ∉ c.inService := fun hm => by
    have := lt_of_clearUpTo (Finset.mem_filter.1 hm).2 h
    omega
  have heq : (c.serve n).inService = insert n.val c.inService := by
    ext i
    simp only [Controller.inService, Controller.serve, lineBit, Finset.mem_filter, Finset.mem_range,
      Finset.mem_insert, BitVec.getLsbD_or, BitVec.getLsbD_twoPow, Bool.or_eq_true, Bool.and_eq_true,
      decide_eq_true_eq]
    by_cases hi : i = n.val
    · subst hi
      simp [n.isLt]
    · simp [hi, Ne.symm hi]
  rw [heq, Finset.card_insert_of_not_mem hn]

/-- A non-specific EOI to a controller with a line in service takes one line out of service. -/
theorem Controller.card_inService_ocw2 {c : Controller} (h : c.inService.Nonempty) :
    (c.ocw2 picEoi).inService.card + 1 = c.inService.card := by
  have hcmd : picEoi &&& 0xe0 = 0x20 := by decide
  cases hh : highest c.isr with
  | none =>
    obtain ⟨i, hi⟩ := h
    obtain ⟨hi8, hb⟩ := Finset.mem_filter.1 hi
    have := getLsbD_of_highest_eq_none hh ⟨i, Finset.mem_range.1 hi8⟩
    simp_all
  | some l =>
    have hl : l.val ∈ c.inService := Finset.mem_filter.2 ⟨Finset.mem_range.2 l.isLt, highest_getLsbD hh⟩
    have heq : (c.ocw2 picEoi).inService = c.inService.erase l := by
      ext i
      simp only [Controller.ocw2, hcmd, if_true, hh, Controller.inService, lineBit, Finset.mem_filter,
        Finset.mem_range, Finset.mem_erase, BitVec.getLsbD_and, BitVec.getLsbD_not, BitVec.getLsbD_twoPow]
      by_cases hi : i = l.val
      · subst hi
        simp
      · simp [hi, Ne.symm hi]
        exact fun h8 _ => h8
    rw [heq, Finset.card_erase_add_one hl]

/-- An acknowledge puts the line the master passes in service on the master, whether the master gives the vector or
lets the slave give one. -/
theorem acknowledge_master {p q : Pics} {v : BitVec 8} (h : p.acknowledge = some (v, q)) :
    ∃ n, p.intr = some n ∧ q.master = p.master.serve n := by
  unfold Pics.acknowledge at h
  split at h
  · cases h
  · rename_i n hn
    refine ⟨n, hn, ?_⟩
    split at h
    · split at h <;> (cases h; rfl)
    · cases h; rfl

theorem raise_master_isr (p : Pics) (irq : Fin 16) : (p.raise irq).master.isr = p.master.isr := by
  unfold Pics.raise
  split <;> rfl

theorem writeMasks_master_isr (masks : BitVec 8 × BitVec 8) (p : Pics) :
    (writeMasks masks p).master.isr = p.master.isr := by
  rw [writeMasks, out8_pic2Data, out8_pic1Data]
  show (p.master.data masks.1).isr = p.master.isr
  unfold Controller.data
  split <;> rfl

/-- The controllers over a run, with the vectors whose handlers are running, innermost first, and, as ghost state, how
many handlers have ended with an EOI sent to the slave. -/
structure Served where
  pics : Pics
  handlers : List (BitVec 8)
  slaveEnds : Nat

/-- One step of a run in which each handler ends with `end_of_interrupt(vector, pic1_offset, pic2_offset)`: a device
raises a line, the kernel calls `init` or `write_masks`, the processor acknowledges an interrupt and enters its handler,
or the innermost handler ends with the EOI of its vector. -/
inductive EoiStep (pic1Offset pic2Offset : BitVec 8) : Served → Served → Prop
  | raise (s : Served) (irq : Fin 16) : EoiStep pic1Offset pic2Offset s { s with pics := s.pics.raise irq }
  | init (s : Served) : EoiStep pic1Offset pic2Offset s { s with pics := Pic.init pic1Offset pic2Offset s.pics }
  | writeMasks (s : Served) (masks : BitVec 8 × BitVec 8) :
      EoiStep pic1Offset pic2Offset s { s with pics := Pic.writeMasks masks s.pics }
  | acknowledge (s : Served) {v : BitVec 8} {q : Pics} : s.pics.acknowledge = some (v, q) →
      EoiStep pic1Offset pic2Offset s { s with pics := q, handlers := v :: s.handlers }
  | eoi (s : Served) {v : BitVec 8} {hs : List (BitVec 8)} {q : Pics} : s.handlers = v :: hs →
      Pic.endOfInterrupt v pic1Offset pic2Offset s.pics = .ok q →
      EoiStep pic1Offset pic2Offset s
        ⟨q, hs, s.slaveEnds + if pic1Offset.toNat ≤ v.toNat ∧ v.toNat < pic1Offset.toNat + 8 then 0 else 1⟩

/-- What every run keeps: the master has one line in service for each handler running and each slave interrupt
ended. -/
def EoiInv (s : Served) : Prop := s.pics.master.inService.card = s.handlers.length + s.slaveEnds

/-- Every step keeps `EoiInv`. -/
theorem EoiStep.eoiInv {pic1Offset pic2Offset : BitVec 8} {s s' : Served} (hs : EoiStep pic1Offset pic2Offset s s')
    (h : EoiInv s) : EoiInv s' := by
  rw [EoiInv] at h
  cases hs with
  | raise irq => simpa only [EoiInv, Controller.inService, raise_master_isr] using h
  | init => simpa only [EoiInv, Controller.inService, init_eq] using h
  | writeMasks masks => simpa only [EoiInv, Controller.inService, writeMasks_master_isr] using h
  | acknowledge hack =>
    obtain ⟨n, hn, hq⟩ := acknowledge_master hack
    simp only [EoiInv, hq, Controller.card_inService_serve (passes_spec hn).2, h, List.length_cons]
    omega
  | eoi hhs heoi =>
    rw [hhs, List.length_cons] at h
    rcases endOfInterrupt_ok heoi with ⟨h1, h2, rfl⟩ | ⟨hv, rfl⟩
    · have hne : s.pics.master.inService.Nonempty := Finset.card_pos.1 (by omega)
      have := Controller.card_inService_ocw2 hne
      simp only [EoiInv, if_pos (And.intro h1 h2)]
      omega
    · simp only [EoiInv, if_neg hv]
      omega

/-- `end_of_interrupt` sends the EOI of a slave interrupt to the slave alone. Over every run from a master with nothing
in service, with any offsets: the master has one line in service per handler running and per slave interrupt ended, so
at most eight slave interrupts ever end, and once one has, the master never passes its line 7 again. -/
theorem endOfInterrupt_strands_master {pic1Offset pic2Offset : BitVec 8} {p : Pics} (hidle : p.master.isr = 0)
    {s : Served} (hs : Relation.ReflTransGen (EoiStep pic1Offset pic2Offset) ⟨p, [], 0⟩ s) :
    s.pics.master.inService.card = s.handlers.length + s.slaveEnds ∧ s.slaveEnds ≤ 8 ∧
      (0 < s.slaveEnds → ∀ req, s.pics.master.passes req ≠ some 7) := by
  have h : EoiInv s := by
    induction hs with
    | refl => simp [EoiInv, Controller.inService, hidle]
    | tail _ hst ih => exact hst.eoiInv ih
  refine ⟨h, by have := s.pics.master.card_inService_le; rw [EoiInv] at h; omega, fun hpos req h7 => ?_⟩
  obtain ⟨l, hl⟩ := Finset.card_pos.1 (show 0 < s.pics.master.inService.card by rw [EoiInv] at h; omega)
  obtain ⟨hl8, hb⟩ := Finset.mem_filter.1 hl
  have : 7 < l := lt_of_clearUpTo hb (passes_spec h7).2
  simp only [Finset.mem_range] at hl8
  omega

/-- A controller that is ready, unmasked and idle, with every other register 0. -/
def idleController : Controller := ⟨.ready, false, false, 0, 0, 0, 0, 0, 0⟩

/-- From idle controllers: `init(32, 40)`, IRQ 12 raised, acknowledged with vector 44, and its handler ended; the
slave's EOI leaves the master's line 2 in service with no handler running. -/
theorem endOfInterrupt_strands_master_irq12 :
    ∃ s, Relation.ReflTransGen (EoiStep 32 40) ⟨⟨idleController, idleController⟩, [], 0⟩ s ∧ s.handlers = [] ∧
      s.slaveEnds = 1 ∧
      (s.pics.master.inService.card = s.handlers.length + s.slaveEnds ∧ s.slaveEnds ≤ 8 ∧
        (0 < s.slaveEnds → ∀ req, s.pics.master.passes req ≠ some 7)) := by
  have hrun : Relation.ReflTransGen (EoiStep 32 40) ⟨⟨idleController, idleController⟩, [], 0⟩ _ :=
    .tail (.tail (.tail (.tail .refl (.init _)) (.raise _ 12)) (.acknowledge _ rfl)) (.eoi _ rfl rfl)
  exact ⟨_, hrun, rfl, rfl, endOfInterrupt_strands_master rfl hrun⟩

end Pic

end Ithaca
