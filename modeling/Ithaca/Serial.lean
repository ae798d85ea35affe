import Mathlib.Logic.Relation

/-!
# The serial port

`serial_port.rs` drives a 16550 UART through the eight I/O ports from `port`. `SerialPort::com1()` is the port at
`0x3f8` after `init()`, which sets the divisor latch under DLAB, the line control to 8N1, the FIFOs and the interrupt
enable; `send(byte)` writes the transmit register only when the line status has `TRANSMIT_BUFFER_EMPTY`, and
`SpinWriter::write_str(s)` sends the bytes of `s` in turn, retrying on `Full`. The UART is the PC16550D's registers,
its FIFOs and the line, which may step between any two port accesses (`WriteStep`). `init` sets the UART up from any
state (`init_eq`), and over every interleaving of `write_str` calls with the line, the bytes on the line and in the
transmit FIFO are the bytes of the calls, in order (`writeStr_conserves`).
-/

namespace Ithaca

namespace Serial

/-- A 16550 UART: the interrupt enable, line control, FIFO control and modem control registers, the divisor latch
(low and high byte), the scratch register, the transmit and receive FIFOs (oldest byte first), and the bytes it has put
on the line. -/
structure Uart where
  ier : BitVec 8
  lcr : BitVec 8
  fcr : BitVec 8
  mcr : BitVec 8
  dll : BitVec 8
  dlm : BitVec 8
  scr : BitVec 8
  tx : List (BitVec 8)
  rx : List (BitVec 8)
  wire : List (BitVec 8)
deriving DecidableEq, Repr

namespace Uart

/-- The divisor latch access bit, bit 7 of the line control register. -/
def dlab (u : Uart) : Bool := u.lcr.getLsbD 7

/-- The FIFOs hold 16 bytes when bit 0 of the FIFO control register enables them, and one byte otherwise. -/
def capacity (u : Uart) : Nat := if u.fcr.getLsbD 0 then 16 else 1

/-- A write to the transmit holding register: the byte joins the transmit FIFO when it has room; a full FIFO loses it,
and with the FIFOs off it overwrites the byte waiting. -/
def thrWrite (u : Uart) (v : BitVec 8) : Uart :=
  if u.tx.length < u.capacity then { u with tx := u.tx ++ [v] }
  else if u.fcr.getLsbD 0 then u else { u with tx := [v] }

/-- A write to the FIFO control register: bits 1 and 2 clear the receive and the transmit FIFO, and so does a change of
the enable bit 0. -/
def fcrWrite (u : Uart) (v : BitVec 8) : Uart :=
  let toggled := v.getLsbD 0 != u.fcr.getLsbD 0
  { u with fcr := v, rx := if v.getLsbD 1 || toggled then [] else u.rx,
           tx := if v.getLsbD 2 || toggled then [] else u.tx }

/-- The line status register: bit 0 (data ready) while the receive FIFO holds a byte, and bits 5 and 6 (transmit
holding register empty, transmitter empty) while the transmit FIFO is empty. -/
def lsr (u : Uart) : BitVec 8 := (if u.rx.isEmpty then 0 else 0x01) ||| (if u.tx.isEmpty then 0x60 else 0)

/-- A write to the register at `offset`. The line status and modem status registers are not written. -/
def write (u : Uart) (offset : Nat) (v : BitVec 8) : Uart :=
  match offset with
  | 0 => if u.dlab then { u with dll := v } else u.thrWrite v
  | 1 => if u.dlab then { u with dlm := v } else { u with ier := v }
  | 2 => u.fcrWrite v
  | 3 => { u with lcr := v }
  | 4 => { u with mcr := v }
  | 7 => { u with scr := v }
  | _ => u

/-- A read of the register at `offset`; reading the receive buffer takes its oldest byte. The interrupt
identification (2) and modem status (6) registers, which nothing here reads, read as 0. -/
def read (u : Uart) (offset : Nat) : BitVec 8 × Uart :=
  match offset with
  | 0 =>
    if u.dlab then (u.dll, u)
    else match u.rx with
      | [] => (0, u)
      | b :: bs => (b, { u with rx := bs })
  | 1 => (if u.dlab then u.dlm else u.ier, u)
  | 3 => (u.lcr, u)
  | 4 => (u.mcr, u)
  | 5 => (u.lsr, u)
  | 7 => (u.scr, u)
  | _ => (0, u)

/-- The line takes the oldest byte of the transmit FIFO. -/
def transmit (u : Uart) : Uart :=
  match u.tx with
  | [] => u
  | b :: bs => { u with tx := bs, wire := u.wire ++ [b] }

/-- A byte arrives from the line; a full receive FIFO loses it (an overrun). -/
def receive (u : Uart) (b : BitVec 8) : Uart :=
  if u.rx.length < u.capacity then { u with rx := u.rx ++ [b] } else u

@[simp] theorem receive_tx (u : Uart) (b : BitVec 8) : (u.receive b).tx = u.tx := by
  unfold receive; split <;> rfl

@[simp] theorem receive_wire (u : Uart) (b : BitVec 8) : (u.receive b).wire = u.wire := by
  unfold receive; split <;> rfl

end Uart

/-- The I/O port of COM1's first register. -/
def com1Base : BitVec 16 := 0x3f8

/-- `out8(port, value)` as COM1's UART sees it: a port among its eight writes that register, any other is not its. -/
def Uart.out8 (u : Uart) (port : BitVec 16) (value : BitVec 8) : Uart :=
  if com1Base ≤ port ∧ port < com1Base + 8 then u.write (port - com1Base).toNat value else u

/-- `in8(port)` as COM1's UART answers it; a port it does not decode reads as a floating bus. -/
def Uart.in8 (u : Uart) (port : BitVec 16) : BitVec 8 × Uart :=
  if com1Base ≤ port ∧ port < com1Base + 8 then u.read (port - com1Base).toNat else (0xff, u)

/-- `SerialPort { port: u16 }`. -/
structure SerialPort where
  port : BitVec 16
deriving DecidableEq, Repr

/-- `SendError::Full`. -/
inductive SendError where
  | full
deriving DecidableEq, Repr

/-- `RecvError::Empty`. -/
inductive RecvError where
  | empty
deriving DecidableEq, Repr

/-- `LineStatus::DATA_READY = 1`. -/
def dataReady : BitVec 8 := 1

/-- `LineStatus::TRANSMIT_BUFFER_EMPTY = 0x20`. -/
def transmitBufferEmpty : BitVec 8 := 0x20

/-- `status.contains(flag)`: every bit of `flag` is in `status`. -/
def contains (status flag : BitVec 8) : Bool := (status &&& flag) == flag

namespace SerialPort

/-- `write(register, value)`: `out8(self.port + u16::from(register), value)`. -/
def write (p : SerialPort) (register value : BitVec 8) (u : Uart) : Uart :=
  u.out8 (p.port + register.setWidth 16) value

/-- `read(register)`: `in8(self.port + u16::from(register))`. -/
def read (p : SerialPort) (register : BitVec 8) (u : Uart) : BitVec 8 × Uart :=
  u.in8 (p.port + register.setWidth 16)

/-- `init()`, write by write. -/
def init (p : SerialPort) (u : Uart) : Uart :=
  u |> p.write 1 0 |> p.write 3 0x80 |> p.write 0 0x3 |> p.write 1 0 |> p.write 3 0x3 |> p.write 2 0xc7
    |> p.write 4 0xb |> p.write 1 0x1

/-- The port `com1()` builds: `SerialPort { port: 0x3f8 }`. -/
def com1Port : SerialPort := ⟨0x3f8⟩

/-- `SerialPort::com1()`: the port at `0x3f8`, initialised. -/
def com1 (u : Uart) : SerialPort × Uart := (com1Port, init com1Port u)

/-- `line_status()`: `LineStatus::from_bits_retain(self.read(5))`. -/
def lineStatus (p : SerialPort) (u : Uart) : BitVec 8 × Uart := p.read 5 u

/-- `send(byte)`. -/
def send (p : SerialPort) (byte : BitVec 8) (u : Uart) : Except SendError Unit × Uart :=
  let (status, u) := p.lineStatus u
  if contains status transmitBufferEmpty then (.ok (), p.write 0 byte u) else (.error .full, u)

/-- `recv()`. -/
def recv (p : SerialPort) (u : Uart) : Except RecvError (BitVec 8) × Uart :=
  let (status, u) := p.lineStatus u
  if contains status dataReady then
    let (b, u) := p.read 0 u
    (.ok b, u)
  else (.error .empty, u)

end SerialPort

/-! ## `init` -/

/-- A register of COM1 written through `com1()`'s port is that register of the UART. -/
theorem com1Port_write (r v : BitVec 8) (hr : r.toNat < 8) (u : Uart) :
    SerialPort.com1Port.write r v u = u.write r.toNat v := by
  have hin : com1Base ≤ 0x3f8 + r.setWidth 16 ∧ 0x3f8 + r.setWidth 16 < com1Base + 8 := by
    simp only [com1Base]
    constructor <;> bv_omega
  have hoff : (0x3f8 + r.setWidth 16 - com1Base : BitVec 16).toNat = r.toNat := by
    simp only [com1Base]
    bv_omega
  simp only [SerialPort.com1Port, SerialPort.write, Uart.out8, if_pos hin, hoff]

theorem write_lcr (u : Uart) (v : BitVec 8) : u.write 3 v = { u with lcr := v } := rfl

theorem write_fcr (u : Uart) (v : BitVec 8) : u.write 2 v = u.fcrWrite v := rfl

theorem write_mcr (u : Uart) (v : BitVec 8) : u.write 4 v = { u with mcr := v } := rfl

theorem write_dll {u : Uart} (h : u.dlab = true) (v : BitVec 8) : u.write 0 v = { u with dll := v } := by
  simp [Uart.write, h]

theorem write_dlm {u : Uart} (h : u.dlab = true) (v : BitVec 8) : u.write 1 v = { u with dlm := v } := by
  simp [Uart.write, h]

theorem write_ier {u : Uart} (h : u.dlab = false) (v : BitVec 8) : u.write 1 v = { u with ier := v } := by
  simp [Uart.write, h]

theorem fcrWrite_clear {u : Uart} {v : BitVec 8} (h1 : v.getLsbD 1 = true) (h2 : v.getLsbD 2 = true) :
    u.fcrWrite v = { u with fcr := v, rx := [], tx := [] } := by
  simp [Uart.fcrWrite, h1, h2]

/-- `init` leaves COM1's UART at divisor 3 and 8N1 with DLAB clear, with the FIFOs on and empty, the modem control
`0xb` and the received-data interrupt on, whatever state it was in, DLAB set or not: the first write goes to the
interrupt enable register or to the divisor's high byte, and both are written again later. -/
theorem init_eq (u : Uart) :
    SerialPort.init SerialPort.com1Port u =
      { u with ier := 1, lcr := 3, fcr := 0xc7, mcr := 0xb, dll := 3, dlm := 0, tx := [], rx := [] } := by
  simp (disch := decide) only [SerialPort.init, com1Port_write, BitVec.reduceToNat]
  have hfirst : ∃ ier dlm, u.write 1 0 = { u with ier := ier, dlm := dlm } := by
    cases h : u.dlab
    · exact ⟨0, u.dlm, write_ier h 0⟩
    · exact ⟨u.ier, 0, write_dlm h 0⟩
  obtain ⟨ier, dlm, h1⟩ := hfirst
  rw [h1]
  simp (disch := first | decide | (simp only [Uart.dlab]; decide)) only [write_lcr, write_fcr, write_mcr, write_dll,
    write_dlm, write_ier, fcrWrite_clear]

/-! ## `write_str` against the line -/

/-- `SpinWriter { port }`. -/
structure SpinWriter where
  port : SerialPort
deriving DecidableEq, Repr

/-- `s.as_bytes()`: the UTF-8 bytes of `s`. -/
def strBytes (s : String) : List (BitVec 8) := s.toUTF8.data.toList.map fun b => BitVec.ofNat 8 b.toNat

/-- The UART and a `SpinWriter` that may be inside a `write_str` call: the bytes of the call not yet sent, and the
transmit-empty answer of a `send`'s status read not yet acted on; as ghost state, the bytes the driver has written to
the transmit register and the bytes of every call begun. -/
structure WriteConfig where
  uart : Uart
  rest : List (BitVec 8)
  status : Option Bool
  sent : List (BitVec 8)
  called : List (BitVec 8)

/-- One step of the UART and of a `SpinWriter` `w`. An idle writer may begin a call `write_str(s)`. Within a call, a
`send` of the next byte reads the line status, then writes the byte when the status has the transmit buffer empty, or
fails with `Full` and is called again; the read and the write or failure after it are one `send` (`send_com1`).
Between any two port accesses the line may take a byte or deliver one. -/
inductive WriteStep (w : SpinWriter) : WriteConfig → WriteConfig → Prop
  | call {c : WriteConfig} (s : String) : c.rest = [] → c.status = none →
      WriteStep w c { c with rest := strBytes s, called := c.called ++ strBytes s }
  | status {c : WriteConfig} : c.rest ≠ [] → c.status = none →
      WriteStep w c { c with uart := (w.port.lineStatus c.uart).2,
                             status := some (contains (w.port.lineStatus c.uart).1 transmitBufferEmpty) }
  | send {c : WriteConfig} {b : BitVec 8} {bs : List (BitVec 8)} : c.rest = b :: bs → c.status = some true →
      WriteStep w c { c with uart := w.port.write 0 b c.uart, rest := bs, status := none, sent := c.sent ++ [b] }
  | full {c : WriteConfig} : c.status = some false → WriteStep w c { c with status := none }
  | transmit {c : WriteConfig} : WriteStep w c { c with uart := c.uart.transmit }
  | receive {c : WriteConfig} (b : BitVec 8) : WriteStep w c { c with uart := c.uart.receive b }

/-- COM1 after `SerialPort::com1()` from the UART state `u`, with an idle writer. -/
def WriteConfig.init (u : Uart) : WriteConfig := ⟨(SerialPort.com1 u).2, [], none, [], []⟩

/-- The configurations reachable from `com1()` on the UART state `u`, with the writer `com1()` returns. -/
def WriteReach (u : Uart) : WriteConfig → Prop :=
  Relation.ReflTransGen (WriteStep ⟨(SerialPort.com1 u).1⟩) (WriteConfig.init u)

/-- The writer `com1()` returns, whatever the UART. -/
theorem com1_fst (u : Uart) : (SerialPort.com1 u).1 = SerialPort.com1Port := rfl

/-- The UART as `init` leaves it. -/
structure Configured (u : Uart) : Prop where
  ier : u.ier = 1
  lcr : u.lcr = 3
  fcr : u.fcr = 0xc7
  mcr : u.mcr = 0xb
  dll : u.dll = 3
  dlm : u.dlm = 0

theorem Configured.dlab {u : Uart} (h : Configured u) : u.dlab = false := by
  rw [Uart.dlab, h.lcr]
  decide

theorem Configured.capacity {u : Uart} (h : Configured u) : u.capacity = 16 := by
  rw [Uart.capacity, h.fcr]
  decide

/-- The FIFOs and the line are none of the registers `init` sets. -/
theorem Configured.fifos {u : Uart} (h : Configured u) (tx rx wire : List (BitVec 8)) :
    Configured { u with tx := tx, rx := rx, wire := wire } :=
  ⟨h.ier, h.lcr, h.fcr, h.mcr, h.dll, h.dlm⟩

/-- The line changes neither the registers nor, beyond its FIFOs, anything the driver set. -/
theorem Configured.transmit {u : Uart} (h : Configured u) : Configured u.transmit := by
  unfold Uart.transmit
  split
  · exact h
  · exact h.fifos _ _ _

theorem Configured.receive {u : Uart} (h : Configured u) (b : BitVec 8) : Configured (u.receive b) := by
  unfold Uart.receive
  split
  · exact h.fifos _ _ _
  · exact h

/-- The line moves the oldest byte of the transmit FIFO to the line's end. -/
theorem transmit_wire_tx (u : Uart) : u.transmit.wire ++ u.transmit.tx = u.wire ++ u.tx := by
  unfold Uart.transmit
  split <;> simp_all

theorem transmit_of_tx_nil {u : Uart} (h : u.tx = []) : u.transmit = u := by
  simp [Uart.transmit, h]

/-- Reading COM1's line status changes nothing. -/
theorem lineStatus_com1 (u : Uart) : SerialPort.com1Port.lineStatus u = (u.lsr, u) := by
  simp [SerialPort.com1Port, SerialPort.lineStatus, SerialPort.read, Uart.in8, com1Base, Uart.read]

/-- The line status has `TRANSMIT_BUFFER_EMPTY` exactly when the transmit FIFO is empty. -/
theorem contains_lsr (u : Uart) : contains u.lsr transmitBufferEmpty = u.tx.isEmpty := by
  simp only [contains, Uart.lsr]
  cases u.rx.isEmpty <;> cases u.tx.isEmpty <;> rfl

/-- With DLAB clear, a write to register 0 of COM1 is a write to the transmit holding register. -/
theorem write_zero_com1 {u : Uart} (h : u.dlab = false) (b : BitVec 8) :
    SerialPort.com1Port.write 0 b u = u.thrWrite b := by
  simp [SerialPort.com1Port, SerialPort.write, Uart.out8, com1Base, Uart.write, h]

/-- `send` on COM1 writes the byte exactly when the transmit FIFO is empty, and otherwise fails with `Full` and changes
nothing: the status read and the write that `WriteStep` takes as two steps. -/
theorem send_com1 (b : BitVec 8) (u : Uart) :
    SerialPort.com1Port.send b u =
      if u.tx.isEmpty then (.ok (), SerialPort.com1Port.write 0 b u) else (.error .full, u) := by
  simp only [SerialPort.send, lineStatus_com1, contains_lsr]

/-- A byte written to an empty transmit FIFO is the one byte in it. -/
theorem thrWrite_of_tx_nil {u : Uart} (h : u.tx = []) (hc : 0 < u.capacity) (b : BitVec 8) :
    u.thrWrite b = { u with tx := [b] } := by
  simp [Uart.thrWrite, h, hc]

/-- What every configuration of COM1 and its writer keeps, over the line's bytes `base` before `com1()`: the UART stays
as `init` left it; the line's bytes since then, followed by the transmit FIFO, are the bytes written; the bytes written
followed by the rest of the call are the bytes of the calls; and a status read that found the transmit FIFO empty still
holds, since only the driver fills it. -/
structure WriteInv (base : List (BitVec 8)) (c : WriteConfig) : Prop where
  configured : Configured c.uart
  line : c.uart.wire ++ c.uart.tx = base ++ c.sent
  calls : c.sent ++ c.rest = c.called
  empty : c.status = some true → c.uart.tx = []

theorem writeInv_init (u : Uart) : WriteInv u.wire (WriteConfig.init u) := by
  simp only [WriteConfig.init, SerialPort.com1, init_eq]
  exact ⟨⟨rfl, rfl, rfl, rfl, rfl, rfl⟩, by simp, rfl, nofun⟩

/-- Every step of COM1 and its writer keeps `WriteInv`. -/
theorem WriteStep.writeInv {base : List (BitVec 8)} {c c' : WriteConfig}
    (hs : WriteStep ⟨SerialPort.com1Port⟩ c c') (h : WriteInv base c) : WriteInv base c' := by
  cases hs with
  | call s hr _ => exact ⟨h.configured, h.line, by rw [← h.calls, hr]; simp, h.empty⟩
  | status _ _ =>
    rw [lineStatus_com1]
    refine ⟨h.configured, h.line, h.calls, fun he => ?_⟩
    rw [contains_lsr] at he
    exact List.isEmpty_iff.1 (Option.some.inj he)
  | send hr hst =>
    rename_i b bs
    have htx := h.empty hst
    rw [write_zero_com1 h.configured.dlab, thrWrite_of_tx_nil htx (by rw [h.configured.capacity]; decide)]
    refine ⟨h.configured.fifos _ _ _, ?_, by rw [← h.calls, hr]; simp, nofun⟩
    have hl := h.line
    rw [htx, List.append_nil] at hl
    simp [hl]
  | full _ => exact ⟨h.configured, h.line, h.calls, nofun⟩
  | transmit =>
    exact ⟨h.configured.transmit, (transmit_wire_tx _).trans h.line, h.calls,
      fun he => by rw [transmit_of_tx_nil (h.empty he)]; exact h.empty he⟩
  | receive b =>
    exact ⟨h.configured.receive b, by simpa using h.line, h.calls, fun he => by simpa using h.empty he⟩

theorem reach_writeInv {u : Uart} {c : WriteConfig} (hc : WriteReach u c) : WriteInv u.wire c := by
  induction hc with
  | refl => exact writeInv_init u
  | tail _ hs ih => exact (com1_fst u ▸ hs).writeInv ih

/-- Every byte that any `write_str` call on COM1 is given goes out on the line once, in order, whatever the line's
timing: over every interleaving of calls with the line taking and delivering bytes, from any state of the UART before
`com1()`, the line's bytes since `com1()` followed by the transmit FIFO are the bytes the driver wrote, and these are
the bytes of the calls followed by nothing but the rest of the current one. The UART keeps 38400 baud 8N1. -/
theorem writeStr_conserves (u : Uart) {c : WriteConfig} (hc : WriteReach u c) :
    c.uart.wire ++ c.uart.tx = u.wire ++ c.sent ∧ c.sent ++ c.rest = c.called ∧ Configured c.uart :=
  let h := reach_writeInv hc
  ⟨h.line, h.calls, h.configured⟩

/-- A UART with every register 0 and nothing queued or sent. -/
def zeroUart : Uart := ⟨0, 0, 0, 0, 0, 0, 0, [], [], []⟩

/-- `write_str("hi")` on COM1 from a zeroed UART, with the line taking the first byte between the two sends: `h` is on
the line and `i` waits in the transmit FIFO. -/
theorem writeStr_conserves_hi :
    ∃ c, WriteReach zeroUart c ∧ c.called = strBytes "hi" ∧ c.rest = [] ∧ c.uart.wire = [0x68] ∧
      c.uart.tx = [0x69] ∧
      (c.uart.wire ++ c.uart.tx = zeroUart.wire ++ c.sent ∧ c.sent ++ c.rest = c.called ∧ Configured c.uart) := by
  have hrun := (Relation.ReflTransGen.refl : WriteReach zeroUart (WriteConfig.init zeroUart))
    |>.tail (WriteStep.call "hi" rfl rfl) |>.tail (WriteStep.status (by decide) rfl)
    |>.tail (@WriteStep.send _ _ 0x68 [0x69] (by decide) (by decide)) |>.tail WriteStep.transmit
    |>.tail (WriteStep.status (by decide) rfl) |>.tail (@WriteStep.send _ _ 0x69 [] (by decide) (by decide))
  exact ⟨_, hrun, rfl, by decide, by decide, by decide, writeStr_conserves zeroUart hrun⟩

end Serial

end Ithaca
