import TecMidi.Sync.Machine

/-!
# `au_out`: the samples on the line

The control unit `UCau_out` and the datapath `au_out`, process by process. The load of the bit counter is
asynchronous: while `ld_cont = '1'` the counter shows its initial value, whatever it holds.
-/

namespace UCauOut

/-- The states of the control unit. -/
inductive Estado where
  | e0 | e1 | e2 | e3 | e4 | e5 | e6 | e7
deriving DecidableEq, Repr

/-- The next state: `e0` waits for a frame, `e2` to `e5` send a bit, `e6` and `e7` wait for the next channel. -/
def es (ep : Estado) (daclrc bclk finCont : Bool) : Estado :=
  match ep with
  | .e0 => if daclrc = true then .e1 else .e0
  | .e1 => .e2
  | .e2 => .e3
  | .e3 => if bclk = true then .e4 else .e3
  | .e4 => if bclk = false then .e5 else .e4
  | .e5 =>
    if finCont = false then .e3
    else if daclrc = false then .e6
    else .e7
  | .e6 => if daclrc = true then .e1 else .e6
  | .e7 => if daclrc = false then .e2 else .e7

/-- Loads the bit counter. -/
def ldCont (ep : Estado) : Bool := ep = .e2

/-- Loads the shift register with the sample. -/
def ldReg (ep : Estado) : Bool := ep = .e1

/-- Decrements the bit counter. -/
def decrCont (ep : Estado) : Bool := ep = .e5

/-- Rotates the shift register. -/
def despReg (ep : Estado) : Bool := ep = .e5

/-- Asks for the next sample. -/
def ready (ep : Estado) : Bool := ep = .e1

end UCauOut

namespace AuOut
open Sync UCauOut

/-- The registers of `au_out`, and the state of its control unit. -/
structure St where
  ep : Estado
  valueCont : BitVec 4
  sampleAux : BitVec 16
deriving DecidableEq, Repr

/-- The input ports, without the clock and the reset. -/
structure In where
  sample : BitVec 16
  daclrc : Bool
  bclk : Bool
deriving DecidableEq, Repr

/-- The output ports. -/
structure Out where
  ready : Bool
  dacDat : Bool
deriving DecidableEq, Repr

/-- The counter as the other processes see it. -/
def St.cont (s : St) : BitVec 4 := if ldCont s.ep = true then 0xF#4 else s.valueCont

/-- The bit that has been sent is the last one. -/
def St.finCont (s : St) : Bool := s.cont = 0b0000#4

/-- The state forced by the reset. -/
def reset : St := ⟨.e0, 0xF#4, 0x0000#16⟩

/-- A rotation by one bit. -/
def gira (x : BitVec 16) : BitVec 16 := x.extractLsb' 0 15 ++ x.extractLsb' 15 1

/-- A rising edge of the clock. -/
def clk (s : St) (i : In) : St where
  ep := es s.ep i.daclrc i.bclk s.finCont
  valueCont := if ldCont s.ep = true then 0xF#4 else if decrCont s.ep = true then s.valueCont - 1#4
    else s.valueCont
  sampleAux := if ldReg s.ep = true then i.sample else if despReg s.ep = true then gira s.sampleAux
    else s.sampleAux

/-- `au_out` with its control unit. -/
def auOut : Machine St In Out where
  next := clk
  out s _ := ⟨ready s.ep, s.sampleAux.getLsbD 15⟩

variable (c : BitVec 4) (x : BitVec 16) (i : In)

/-! ### One edge in each state -/

/-- The edge in `e0` waits for the left channel. -/
lemma clk_e0 : clk ⟨.e0, c, x⟩ i = ⟨if i.daclrc = true then .e1 else .e0, c, x⟩ := rfl

/-- The edge in `e1` takes the sample. -/
lemma clk_e1 : clk ⟨.e1, c, x⟩ i = ⟨.e2, c, i.sample⟩ := rfl

/-- The edge in `e2` loads the bit counter. -/
lemma clk_e2 : clk ⟨.e2, c, x⟩ i = ⟨.e3, 0xF#4, x⟩ := rfl

/-- The edge in `e3` waits for the bit clock to rise. -/
lemma clk_e3 : clk ⟨.e3, c, x⟩ i = ⟨if i.bclk = true then .e4 else .e3, c, x⟩ := rfl

/-- The edge in `e4` waits for it to fall. -/
lemma clk_e4 : clk ⟨.e4, c, x⟩ i = ⟨if i.bclk = false then .e5 else .e4, c, x⟩ := rfl

/-- The edge in `e5` goes on to the next bit, or waits for the other channel. -/
lemma clk_e5 :
    clk ⟨.e5, c, x⟩ i =
      ⟨if decide (c = 0#4) = false then .e3 else if i.daclrc = false then .e6 else .e7,
        c - 1#4, gira x⟩ := rfl

/-- The edge in `e6`, with both channels sent, waits for the next frame. -/
lemma clk_e6 : clk ⟨.e6, c, x⟩ i = ⟨if i.daclrc = true then .e1 else .e6, c, x⟩ := rfl

/-- The edge in `e7`, with one channel sent, waits for the right one. -/
lemma clk_e7 : clk ⟨.e7, c, x⟩ i = ⟨if i.daclrc = false then .e2 else .e7, c, x⟩ := rfl

/-! ### The rotation -/

/-- A step of the shift register is a rotation to the left. -/
lemma gira_eq (x : BitVec 16) : gira x = x.rotateLeft 1 := by
  apply BitVec.eq_of_getLsbD_eq
  intro i hi
  rw [gira, BitVec.getLsbD_append, BitVec.getLsbD_rotateLeft]
  by_cases h : i < 1
  · obtain rfl : i = 0 := by omega
    simp
  · have lt : i - 1 < 15 := by omega
    simp [h, hi, lt]

/-- After `j` steps one more makes `j + 1`. -/
lemma gira_rotateLeft (v : BitVec 16) (j : ℕ) : gira (v.rotateLeft j) = v.rotateLeft (j + 1) := by
  apply BitVec.eq_of_getMsbD_eq
  intro i hi
  rw [gira_eq, BitVec.getMsbD_rotateLeft, BitVec.getMsbD_rotateLeft, BitVec.getMsbD_rotateLeft]
  have lt : (1 + i) % 16 < 16 := Nat.mod_lt _ (by decide)
  have mod : (j + (1 + i) % 16) % 16 = (j + 1 + i) % 16 := by omega
  simp only [hi, lt, mod, decide_true, Bool.true_and]

/-- Before the first step the register is as it was loaded. -/
lemma rotateLeft_none (v : BitVec 16) : v.rotateLeft 0 = v := by
  apply BitVec.eq_of_getMsbD_eq
  intro i hi
  rw [BitVec.getMsbD_rotateLeft, Nat.zero_add, Nat.mod_eq_of_lt hi]
  simp only [hi, decide_true, Bool.true_and]

/-- Sixteen rotations bring the word back. -/
lemma rotateLeft_all (v : BitVec 16) : v.rotateLeft 16 = v := by
  apply BitVec.eq_of_getMsbD_eq
  intro i hi
  rw [BitVec.getMsbD_rotateLeft]
  have mod : (16 + i) % 16 = i := by omega
  simp only [hi, mod, decide_true, Bool.true_and]

/-- The bit on the line after `j` rotations. -/
lemma dacDat_rotateLeft (v : BitVec 16) {j : ℕ} (hj : j < 16) :
    (v.rotateLeft j).getLsbD 15 = v.getMsbD j := by
  have top : (v.rotateLeft j).getLsbD 15 = (v.rotateLeft j).getMsbD 0 := by
    rw [BitVec.getMsbD_eq_getLsbD]
    rfl
  rw [top, BitVec.getMsbD_rotateLeft, Nat.add_zero, Nat.mod_eq_of_lt hj]
  rfl

end AuOut
