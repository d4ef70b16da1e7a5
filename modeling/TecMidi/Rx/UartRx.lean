import Mathlib.Data.Int.Notation
import TecMidi.Midi.Message
import TecMidi.Sync.Delivery
import TecMidi.Sync.Serial

/-!
# `uart_rx`: the generic serial receiver

The entity `uart_rx`, process by process, for any `BAUD_RATE` and `CLK_FREQ`. The counters `ctmp` and
`cbits` are natural numbers; their declared ranges are not part of the model but something to prove of
it. The constants that `ctmp` is compared with are integers, as in the source.
-/

namespace UartRx
open Sync

/-- The generics of `uart_rx`. -/
structure Generics where
  baudRate : ℕ
  clkFreq : ℕ

/-- The cycles of a bit. -/
def Generics.ciclosBit (g : Generics) : ℕ := g.clkFreq / g.baudRate

/-- The cycles of half a bit. -/
def Generics.ciclosMbit (g : Generics) : ℕ := g.ciclosBit / 2

/-- The states of the control unit. -/
inductive State where
  | idle | wait0 | cltmp | waitbit | readbit | recend
deriving DecidableEq, Repr

/-- The state, the synchronised line and its copy, the shift register, the two counters and the flip-flop of
`ready`. -/
structure St where
  st : State
  rxd : Bool
  rxdd : Bool
  srbyte : BitVec 8
  ctmp : ℕ
  cbits : ℕ
  jkready : Bool
deriving DecidableEq, Repr

/-- The line and the acknowledgement. -/
structure In where
  rx : Bool
  ack : Bool
deriving DecidableEq, Repr

/-- The byte and whether it is there. -/
structure Out where
  byte : BitVec 8
  ready : Bool
deriving DecidableEq, Repr

variable (g : Generics)

namespace St

/-- The synchronised line has fallen. -/
def rxdown (s : St) : Bool := s.rxd = false ∧ s.rxdd = true

/-- The half-bit wait is over. -/
def tmp0 (s : St) : Bool := (s.ctmp : ℤ) = g.ciclosMbit - 2

/-- The wait for a sample is over. -/
def tmpbit (s : St) : Bool := (s.ctmp : ℤ) = g.ciclosBit - 3

/-- All bits have been taken. -/
def lastbit (s : St) : Bool := s.cbits = 8

/-- Clears the bit counter. -/
def clBits (s : St) : Bool := s.st = .idle

/-- Clears the cycle counter. -/
def clTmp (s : St) : Bool := s.st = .idle ∨ s.st = .cltmp

/-- The cycle counter goes on. -/
def incTmp (s : St) : Bool := s.st = .wait0 ∨ s.st = .waitbit

/-- Shifts the line in. -/
def shRight (s : St) : Bool := s.st = .readbit

/-- The bit counter goes on. -/
def incBits (s : St) : Bool := s.shRight

/-- Resets `ready`. -/
def ready0 (s : St) : Bool := s.shRight

/-- Sets `ready`. -/
def ready1 (s : St) : Bool := s.st = .recend

/-- The next state: `wait0` confirms the start bit, `cltmp`, `waitbit` and `readbit` take a bit, and `recend`
ends the reception. -/
def nextSt (s : St) : State :=
  match s.st with
  | .idle => if s.rxdown = true then .wait0 else .idle
  | .wait0 =>
    if s.tmp0 g = false then .wait0
    else if s.rxd = true then .idle
    else .cltmp
  | .cltmp => .waitbit
  | .waitbit =>
    if s.tmpbit g = false then .waitbit
    else if s.lastbit = false then .readbit
    else if s.rxd = true then .recend
    else .idle
  | .readbit => .cltmp
  | .recend => .idle

end St

/-- The state forced by the reset. -/
def reset : St where
  st := .idle
  rxd := false
  rxdd := false
  srbyte := 0#8
  ctmp := 0
  cbits := 0
  jkready := false

/-- The shift register takes the synchronised line in at its top. -/
def shiftIn (rxd : Bool) (srbyte : BitVec 8) : BitVec 8 := .cons rxd (srbyte.extractLsb' 1 7)

/-- A rising edge of the clock. -/
def clk (s : St) (i : In) : St where
  st := s.nextSt g
  rxd := i.rx
  rxdd := s.rxd
  srbyte := if s.shRight = true then shiftIn s.rxd s.srbyte else s.srbyte
  ctmp := if s.clTmp = true then 0 else if s.incTmp = true then s.ctmp + 1 else s.ctmp
  cbits := if s.clBits = true then 0 else if s.incBits = true then s.cbits + 1 else s.cbits
  jkready :=
    if s.ready1 = true then true
    else if s.ready0 = true ∨ i.ack = true then false
    else s.jkready

/-- `uart_rx` on its clock. -/
def uartRx : Machine St In Out where
  next := clk g
  out s _ := ⟨s.srbyte, s.jkready⟩

/-- `uart_rx` with `ack` tied to `'1'`: the input is the line. -/
def uartRxAck : Machine St Bool Out := (uartRx g).drive fun rx => ⟨rx, true⟩

/-- The byte delivered in a cycle, if any. -/
def Out.byte? (o : Out) : Option Midi.Byte := pulse o.ready o.byte

/-- The control state, the counters and the shift register; the other registers only follow the
inputs and the control state. -/
structure Ctl where
  st : State
  ctmp : ℕ
  cbits : ℕ
  srbyte : BitVec 8

/-- The control part of a state. -/
def St.ctl (s : St) : Ctl := ⟨s.st, s.ctmp, s.cbits, s.srbyte⟩

section Edges

variable {g} {s : St} {i : In} {m n : ℕ} {c : BitVec 8}

/-! ### One edge in each state -/

/-- The edge in `idle` waits for the line to fall. -/
lemma clk_idle (h : s.st = .idle) :
    (clk g s i).ctl = ⟨if s.rxdown = true then .wait0 else .idle, 0, 0, s.srbyte⟩ := by
  simp [St.ctl, clk, St.nextSt, St.shRight, St.clTmp, St.clBits, h]

/-- The edge in `wait0` counts up to half a bit. -/
lemma clk_wait0 (h : s.ctl = ⟨.wait0, m, n, c⟩) (more : m + 2 < g.ciclosMbit) :
    (clk g s i).ctl = ⟨.wait0, m + 1, n, c⟩ := by
  simp only [St.ctl, Ctl.mk.injEq] at h ⊢
  obtain ⟨st, rfl, rfl, rfl⟩ := h
  have count : s.tmp0 g = false := decide_eq_false (by omega)
  simp [clk, St.nextSt, St.shRight, St.clTmp, St.clBits, St.incTmp, St.incBits, st, count]

/-- At the end of the half bit, a line that is high again is no start bit. -/
lemma clk_wait0_fin (h : s.ctl = ⟨.wait0, m, n, c⟩) (fin : m + 2 = g.ciclosMbit) :
    (clk g s i).ctl = ⟨if s.rxd = true then .idle else .cltmp, m + 1, n, c⟩ := by
  simp only [St.ctl, Ctl.mk.injEq] at h ⊢
  obtain ⟨st, rfl, rfl, rfl⟩ := h
  have count : s.tmp0 g = true := decide_eq_true (by omega)
  simp [clk, St.nextSt, St.shRight, St.clTmp, St.clBits, St.incTmp, St.incBits, st, count]

/-- The half-bit wait leads to no byte directly. -/
lemma clk_wait0_ne (h : s.st = .wait0) : (clk g s i).st ≠ .recend := by
  cases count : s.tmp0 g <;> cases level : s.rxd <;> simp [clk, St.nextSt, h, count, level]

/-- The edge in `cltmp` starts the count again. -/
lemma clk_cltmp (h : s.ctl = ⟨.cltmp, m, n, c⟩) : (clk g s i).ctl = ⟨.waitbit, 0, n, c⟩ := by
  simp only [St.ctl, Ctl.mk.injEq] at h ⊢
  obtain ⟨st, rfl, rfl, rfl⟩ := h
  simp [clk, St.nextSt, St.shRight, St.clTmp, St.clBits, St.incBits, st]

/-- The edge in `waitbit` counts up to the next sample. -/
lemma clk_waitbit (h : s.ctl = ⟨.waitbit, m, n, c⟩) (more : m + 3 < g.ciclosBit) :
    (clk g s i).ctl = ⟨.waitbit, m + 1, n, c⟩ := by
  simp only [St.ctl, Ctl.mk.injEq] at h ⊢
  obtain ⟨st, rfl, rfl, rfl⟩ := h
  have count : s.tmpbit g = false := decide_eq_false (by omega)
  simp [clk, St.nextSt, St.shRight, St.clTmp, St.clBits, St.incTmp, St.incBits, st, count]

/-- At the end of the wait comes a bit, or the stop bit, which must be high. -/
lemma clk_waitbit_fin (h : s.ctl = ⟨.waitbit, m, n, c⟩) (fin : m + 3 = g.ciclosBit) :
    (clk g s i).ctl =
      ⟨if n = 8 then if s.rxd = true then .recend else .idle else .readbit, m + 1, n, c⟩ := by
  simp only [St.ctl, Ctl.mk.injEq] at h ⊢
  obtain ⟨st, rfl, rfl, rfl⟩ := h
  have count : s.tmpbit g = true := decide_eq_true (by omega)
  by_cases last : s.cbits = 8 <;>
    simp [clk, St.nextSt, St.shRight, St.clTmp, St.clBits, St.incTmp, St.incBits, St.lastbit, st,
      count, last]

/-- The edge in `readbit` shifts the bit in. -/
lemma clk_readbit (h : s.ctl = ⟨.readbit, m, n, c⟩) :
    (clk g s i).ctl = ⟨.cltmp, m, n + 1, shiftIn s.rxd c⟩ := by
  simp only [St.ctl, Ctl.mk.injEq] at h ⊢
  obtain ⟨st, rfl, rfl, rfl⟩ := h
  simp [clk, St.nextSt, St.shRight, St.clTmp, St.clBits, St.incTmp, St.incBits, st]

/-- The edge in `recend` ends the reception. -/
lemma clk_recend (h : s.ctl = ⟨.recend, m, n, c⟩) : (clk g s i).ctl = ⟨.idle, m, n, c⟩ := by
  simp only [St.ctl, Ctl.mk.injEq] at h ⊢
  obtain ⟨st, rfl, rfl, rfl⟩ := h
  simp [clk, St.nextSt, St.shRight, St.clTmp, St.clBits, St.incTmp, St.incBits, st]

/-- With `ack` tied to `'1'`, `ready` follows `recend` by one cycle. -/
lemma clk_jkready (ack : i.ack = true) : (clk g s i).jkready = s.ready1 := by
  cases h : s.ready1 <;> simp [clk, h, ack]

end Edges

end UartRx
