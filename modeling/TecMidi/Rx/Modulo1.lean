import TecMidi.Midi.Message
import TecMidi.Sync.Delivery
import TecMidi.Sync.Serial

/-!
# `modulo1`: the serial receiver

The control unit `UCmodulo1` and the datapath `modulo1`, process by process. The signals that are not
registers are functions of these.

The small lemmas say what one edge does in each state of the control unit, so that no later proof
unfolds `clk`.
-/

namespace UCmodulo1

/-- The states of the control unit. -/
inductive Estado where
  | e0 | e1 | e2 | e3 | e4 | e5 | e6 | e7 | e8
deriving DecidableEq, Repr

/-- The next state: `e1` to `e3` confirm the start bit, `e4` to `e6` take a bit, `e7` and `e8` look at the stop
bit. -/
def es (ep : Estado) (midiRx finCtPd finCtBt stopBit : Bool) : Estado :=
  match ep with
  | .e0 => if midiRx = false then .e1 else .e0
  | .e1 => .e2
  | .e2 =>
    if finCtPd = false then .e2
    else if finCtPd = true ∧ midiRx = false then .e3
    else .e0
  | .e3 => .e4
  | .e4 => if finCtPd = true then .e5 else .e4
  | .e5 => if finCtBt = true then .e7 else .e6
  | .e6 => .e4
  | .e7 => if stopBit = true then .e8 else .e0
  | .e8 => .e0

/-- Selects the half period. -/
def selPd (ep : Estado) : Bool := ep = .e1

/-- Loads the period counter. -/
def ldCtPd (ep : Estado) : Bool := ep = .e1 ∨ ep = .e3 ∨ ep = .e6

/-- Decrements the period counter. -/
def dcrCtPd (ep : Estado) : Bool := ep = .e2 ∨ ep = .e4

/-- Decrements the bit counter. -/
def dcrCtBt (ep : Estado) : Bool := ep = .e5

/-- Loads the bit counter. -/
def ldCtBt (ep : Estado) : Bool := ep = .e3

/-- Shifts the line in. -/
def despDer (ep : Estado) : Bool := ep = .e3 ∨ ep = .e5

/-- Delivers the byte. -/
def ready (ep : Estado) : Bool := ep = .e8

end UCmodulo1

namespace Modulo1
open Sync UCmodulo1

/-- The shift register and the two counters. -/
structure St where
  ep : Estado
  codeAux : BitVec 10
  valueBt : BitVec 4
  valuePd : BitVec 12
deriving DecidableEq, Repr

namespace St

/-- The byte lies between the start and the stop bit. -/
def code (s : St) : BitVec 8 := s.codeAux.extractLsb' 1 8

/-- The bit counter has expired, or has wrapped below zero. -/
def finCtBt (s : St) : Bool := s.valueBt = 0x0#4 ∨ s.valueBt = 0xF#4

/-- The bit shifted in last. -/
def stopBit (s : St) : Bool := s.codeAux.getLsbD 9

/-- The period to load: 1599, or 799 for half a bit. -/
def muxValue (s : St) : BitVec 12 := if selPd s.ep = false then 0x63F#12 else 0x31F#12

/-- The period counter has expired. -/
def finCtPd (s : St) : Bool := s.valuePd = 0#12

end St

/-- The shift register takes the line in at its top. -/
def shiftIn (midiRx : Bool) (codeAux : BitVec 10) : BitVec 10 :=
  .cons midiRx (codeAux.extractLsb' 1 9)

/-- The state forced by the reset. -/
def reset : St where
  ep := .e0
  codeAux := 0#10
  valueBt := 0x8#4
  valuePd := 0x320#12

/-- A rising edge of the clock. -/
def clk (s : St) (midiRx : Bool) : St where
  ep := es s.ep midiRx s.finCtPd s.finCtBt s.stopBit
  codeAux := if despDer s.ep = true then shiftIn midiRx s.codeAux else s.codeAux
  valueBt :=
    if ldCtBt s.ep = true then 0x8#4
    else if dcrCtBt s.ep = true then s.valueBt - 1
    else s.valueBt
  valuePd :=
    if ldCtPd s.ep = true then s.muxValue
    else if dcrCtPd s.ep = true then s.valuePd - 1
    else s.valuePd

/-- The byte and its pulse. -/
structure Out where
  ready : Bool
  code : BitVec 8
deriving DecidableEq, Repr

/-- `modulo1` on its clock: the input is the line. -/
def modulo1 : Machine St Bool Out where
  next := clk
  out s _ := ⟨ready s.ep, s.code⟩

/-- The byte delivered in a cycle, if any. -/
def Out.byte? (o : Out) : Option Midi.Byte := pulse o.ready o.code

/-- The bits of the byte in the shift register. -/
lemma getLsbD_code (s : St) {i : ℕ} (hi : i < 8) : s.code.getLsbD i = s.codeAux.getLsbD (i + 1) := by
  rw [St.code, BitVec.getLsbD_extractLsb', Nat.add_comm 1 i]
  simp only [hi, decide_true, Bool.true_and]

variable (c : BitVec 10) (k : BitVec 4) (v : BitVec 12) (x : Bool)

/-! ### One edge in each state -/

/-- The edge in `e0` waits for the line to fall. -/
lemma clk_e0 : clk ⟨.e0, c, k, v⟩ x = ⟨if x = true then .e0 else .e1, c, k, v⟩ := by
  cases x <;> rfl

/-- The edge in `e1` loads half a period. -/
lemma clk_e1 : clk ⟨.e1, c, k, v⟩ x = ⟨.e2, c, k, 0x31F#12⟩ := rfl

/-- The edge in `e2` counts the half period down. -/
lemma clk_e2_wait {n : ℕ} (hn : n + 1 < 4096) :
    clk ⟨.e2, c, k, BitVec.ofNat 12 (n + 1)⟩ x = ⟨.e2, c, k, BitVec.ofNat 12 n⟩ := by
  have ne : BitVec.ofNat 12 (n + 1) ≠ 0#12 := by bv_omega
  have dec : BitVec.ofNat 12 (n + 1) - 1#12 = BitVec.ofNat 12 n := by bv_omega
  simp [clk, es, St.finCtPd, despDer, ldCtBt, dcrCtBt, ldCtPd, dcrCtPd, ne, dec]

/-- At the end of the half period, a line that is high again is no start bit. -/
lemma clk_e2_fin : clk ⟨.e2, c, k, 0#12⟩ x = ⟨if x = true then .e0 else .e3, c, k, 0xFFF#12⟩ := by
  cases x <;> rfl

/-- The edge in `e3` shifts the start bit in and loads a period. -/
lemma clk_e3 : clk ⟨.e3, c, k, v⟩ x = ⟨.e4, shiftIn x c, 0x8#4, 0x63F#12⟩ := rfl

/-- The edge in `e4` counts the period down. -/
lemma clk_e4_wait {n : ℕ} (hn : n + 1 < 4096) :
    clk ⟨.e4, c, k, BitVec.ofNat 12 (n + 1)⟩ x = ⟨.e4, c, k, BitVec.ofNat 12 n⟩ := by
  have ne : BitVec.ofNat 12 (n + 1) ≠ 0#12 := by bv_omega
  have dec : BitVec.ofNat 12 (n + 1) - 1#12 = BitVec.ofNat 12 n := by bv_omega
  simp [clk, es, St.finCtPd, despDer, ldCtBt, dcrCtBt, ldCtPd, dcrCtPd, ne, dec]

/-- At the end of the period comes a sample. -/
lemma clk_e4_fin : clk ⟨.e4, c, k, 0#12⟩ x = ⟨.e5, c, k, 0xFFF#12⟩ := rfl

/-- The edge in `e5` takes a bit, with more to come. -/
lemma clk_e5_more (more : k ≠ 0x0#4 ∧ k ≠ 0xF#4) :
    clk ⟨.e5, c, k, v⟩ x = ⟨.e6, shiftIn x c, k - 1, v⟩ := by
  simp [clk, es, St.finCtBt, despDer, ldCtBt, dcrCtBt, ldCtPd, dcrCtPd, more]

/-- The edge in `e5` takes the last bit. -/
lemma clk_e5_last : clk ⟨.e5, c, 0x0#4, v⟩ x = ⟨.e7, shiftIn x c, 0xF#4, v⟩ := rfl

/-- The edge in `e6` loads the next period. -/
lemma clk_e6 : clk ⟨.e6, c, k, v⟩ x = ⟨.e4, c, k, 0x63F#12⟩ := rfl

/-- The edge in `e7` lets a byte with a stop bit through. -/
lemma clk_e7 : clk ⟨.e7, c, k, v⟩ x = ⟨if c.getLsbD 9 = true then .e8 else .e0, c, k, v⟩ := by
  simp [clk, es, St.stopBit, despDer, ldCtBt, dcrCtBt, ldCtPd, dcrCtPd]

/-- The edge in `e8` ends the pulse. -/
lemma clk_e8 : clk ⟨.e8, c, k, v⟩ x = ⟨.e0, c, k, v⟩ := rfl

end Modulo1
