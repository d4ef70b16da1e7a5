import TecMidi.Sync.Machine

/-!
# `au_setup`: configuration of the codec

The control unit and the datapath of `au_setup`, signal by signal. The line `i2c_sdat` is open: when the
master releases it, it reads what the slave drives, which is an input of every cycle.

`Step` lists what a clock edge can do, one rule for each transition, and `clk_step` shows that it does
nothing else. `Inv` is what all the states reached from reset have in common. The counters are numbers
here: that they stay in their declared ranges is part of `Inv`.
-/

namespace AuSetup
open Sync

/-- The states of the control unit. -/
inductive Estado where
  | e0 | e1 | e2 | e3 | e4 | e5
deriving DecidableEq, Repr

/-- The state, the counters of bits, words and cycles, and the bit on the line. -/
structure St where
  ep : Estado
  cbits : ℕ
  caddr : ℕ
  ctmp : BitVec 8
  sdat : Bool
deriving DecidableEq, Repr

/-- The switch and the slave. -/
structure In where
  micLin : Bool
  /-- The value of the line if the master releases it. -/
  esclavo : Bool
deriving DecidableEq, Repr

/-- The last address. -/
def laddr : ℕ := 7

/-- The configuration data: the address of the codec and the word for a register. -/
def dato (caddr : ℕ) (micLin : Bool) : BitVec 24 :=
  0b00110100#8 ++ (match caddr with
    | 0 => 0x0C00#16
    | 1 => 0x0E41#16
    | 2 => 0x100C#16
    | 3 => if micLin = true then 0x0814#16 else 0x0810#16
    | 4 => 0x0579#16
    | 5 => 0x0117#16
    | 6 => 0x0A00#16
    | _ => 0x1201#16)

/-- Bit `n` of the data, numbered from 0 to 23 as they are sent. -/
def bit (caddr : ℕ) (micLin : Bool) (n : ℕ) : Bool := (dato caddr micLin).getMsbD n

section Signals
variable (s : St) (i : In)

/-- A byte has been sent. -/
def stop : Bool := s.cbits = 8 ∨ s.cbits = 16 ∨ s.cbits = 24

/-- The word has been sent. -/
def bit24 : Bool := s.cbits = 24

/-- The word is the last one. -/
def lastaddr : Bool := s.caddr = laddr

/-- The bus clock is the top bit of the cycle counter. -/
def i2cSclk : Bool := s.ctmp.getLsbD 7

/-- The bus clock rises at the end of the cycle. -/
def up : Bool := s.ctmp = 0b01111111#8

/-- The bus clock falls at the end of the cycle. -/
def down : Bool := s.ctmp = 0b11111111#8

/-- The master releases the line. -/
def setbitz : Bool := s.ep = .e2 ∨ s.ep = .e3

/-- The line of the bus: while the master has released it, the slave drives it. -/
def i2cSdat : Bool := if setbitz s = true then i.esclavo else s.sdat

/-- The next state: `e0` waits for the start, `e1` sends a bit, `e2` and `e3` take the answer, `e4` sends the
stop. -/
def es : Estado :=
  match s.ep with
  | .e0 => if down s = true then .e1 else .e0
  | .e1 => if down s = true ∧ stop s = true then .e2 else .e1
  | .e2 =>
    if up s = false then .e2
    else if i2cSdat s i = true then .e0
    else .e3
  | .e3 =>
    if down s = false then .e3
    else if bit24 s = false then .e1
    else .e4
  | .e4 =>
    if down s = false then .e4
    else if lastaddr s = false then .e0
    else .e5
  | .e5 => .e5

/-- The cycle counter goes on. -/
def inctmp : Bool := ¬ s.ep = .e5

/-- The cycle counter is set to the start of a high phase. -/
def settmp : Bool :=
  (s.ep = .e0 ∧ down s = true) ∨ (s.ep = .e2 ∧ up s = true ∧ i2cSdat s i = true) ∨
    (s.ep = .e4 ∧ down s = true ∧ lastaddr s = false)

/-- The line is pulled low, for a start or before a stop. -/
def setbit0 : Bool :=
  (s.ep = .e0 ∧ down s = true) ∨ (s.ep = .e3 ∧ down s = true ∧ bit24 s = true)

/-- The line is let go for a stop. -/
def setbit1 : Bool := s.ep = .e4 ∧ down s = true

/-- The next bit is loaded. -/
def ldbit : Bool :=
  (s.ep = .e1 ∧ down s = true ∧ stop s = false) ∨ (s.ep = .e3 ∧ down s = true ∧ bit24 s = false)

/-- The bit counter goes on. -/
def incbits : Bool :=
  (s.ep = .e1 ∧ down s = true ∧ stop s = false) ∨ (s.ep = .e3 ∧ down s = true ∧ bit24 s = false)

/-- The bit counter is cleared. -/
def clbits : Bool :=
  (s.ep = .e2 ∧ up s = true ∧ i2cSdat s i = true) ∨ (s.ep = .e4 ∧ down s = true ∧ lastaddr s = false)

/-- The word counter is cleared. -/
def claddr : Bool :=
  (s.ep = .e2 ∧ up s = true ∧ i2cSdat s i = true) ∨ (s.ep = .e4 ∧ down s = true ∧ lastaddr s = false)

/-- The word counter goes on. -/
def incaddr : Bool := s.ep = .e4 ∧ down s = true ∧ lastaddr s = false

/-- The bit that would be loaded. -/
def dbit : Bool := bit s.caddr i.micLin s.cbits

end Signals

/-- The state forced by the reset. -/
def reset : St := ⟨.e0, 0, 0, 0b10000000#8, true⟩

/-- A rising edge of the clock. -/
def clk (s : St) (i : In) : St where
  ep := es s i
  cbits := if incbits s = true then s.cbits + 1 else if clbits s i = true then 0 else s.cbits
  caddr := if incaddr s = true then s.caddr + 1 else if claddr s i = true then 0 else s.caddr
  ctmp := if settmp s i = true then 0b10000000#8 else if inctmp s = true then s.ctmp + 1#8 else s.ctmp
  sdat :=
    if ldbit s = true then dbit s i
    else if setbit0 s = true then false
    else if setbit1 s = true then true
    else s.sdat

/-- The two wires of the bus. -/
structure Out where
  i2cSclk : Bool
  i2cSdat : Bool
deriving DecidableEq, Repr

/-- `au_setup` on its clock. -/
def auSetup : Machine St In Out where
  next := clk
  out s i := ⟨i2cSclk s, i2cSdat s i⟩

/-- The edges of `au_setup`. -/
inductive Step (i : In) : St → St → Prop where
  /-- The phase counter runs. -/
  | cuenta {s : St} : s.ep ≠ .e5 → (s.ep = .e2 → s.ctmp ≠ 0x7F#8) → (s.ep ≠ .e2 → s.ctmp ≠ 0xFF#8) →
      Step i s { s with ctmp := s.ctmp + 1#8 }
  /-- Start. -/
  | inicio {n a d} : Step i ⟨.e0, n, a, 0xFF#8, d⟩ ⟨.e1, n, a, 0x80#8, false⟩
  /-- The next bit of a byte, or its first one. -/
  | bit {n a d} : ¬ (n = 8 ∨ n = 16 ∨ n = 24) →
      Step i ⟨.e1, n, a, 0xFF#8, d⟩ ⟨.e1, n + 1, a, 0#8, bit a i.micLin n⟩
  /-- The byte has been sent, and the line is released. -/
  | libera {n a d} : (n = 8 ∨ n = 16 ∨ n = 24) → Step i ⟨.e1, n, a, 0xFF#8, d⟩ ⟨.e2, n, a, 0#8, d⟩
  /-- The slave does not acknowledge: start again. -/
  | nack {n a d} : i.esclavo = true → Step i ⟨.e2, n, a, 0x7F#8, d⟩ ⟨.e0, 0, 0, 0x80#8, d⟩
  | ack {n a d} : i.esclavo = false → Step i ⟨.e2, n, a, 0x7F#8, d⟩ ⟨.e3, n, a, 0x80#8, d⟩
  /-- The first bit of the next byte. -/
  | byte {n a d} : n ≠ 24 → Step i ⟨.e3, n, a, 0xFF#8, d⟩ ⟨.e1, n + 1, a, 0#8, AuSetup.bit a i.micLin n⟩
  /-- The three bytes have been sent. -/
  | cierre {a d} : Step i ⟨.e3, 24, a, 0xFF#8, d⟩ ⟨.e4, 24, a, 0#8, false⟩
  | palabra {n a d} : a ≠ laddr → Step i ⟨.e4, n, a, 0xFF#8, d⟩ ⟨.e0, 0, a + 1, 0x80#8, true⟩
  /-- The last word has been sent. -/
  | final {n d} : Step i ⟨.e4, n, laddr, 0xFF#8, d⟩ ⟨.e5, n, laddr, 0#8, true⟩
  | fin {n a c d} : Step i ⟨.e5, n, a, c, d⟩ ⟨.e5, n, a, c, d⟩

section Edges
attribute [local simp] clk es incbits clbits incaddr claddr settmp inctmp ldbit setbit0 setbit1 dbit
  i2cSdat setbitz up down stop bit24 lastaddr

variable {n a : ℕ} {c : BitVec 8} {d : Bool} {i : In}

/-- Unless the counter is at the end of a phase, an edge only counts. -/
lemma clk_cuenta {s : St} (h5 : s.ep ≠ .e5) (hu : s.ep = .e2 → s.ctmp ≠ 0x7F#8)
    (hd : s.ep ≠ .e2 → s.ctmp ≠ 0xFF#8) : clk s i = { s with ctmp := s.ctmp + 1#8 } := by
  obtain ⟨ep, n, a, c, d⟩ := s
  cases ep with
  | e5 => exact absurd rfl h5
  | e2 => simp [show c ≠ 0x7F#8 from hu rfl]
  | _ => simp [show c ≠ 0xFF#8 from hd nofun]

/-- A start: the line falls while the bus clock is high. -/
lemma clk_inicio : clk ⟨.e0, n, a, 0xFF#8, d⟩ i = ⟨.e1, n, a, 0x80#8, false⟩ := by simp

/-- The next bit of a byte. -/
lemma clk_bit (h : ¬ (n = 8 ∨ n = 16 ∨ n = 24)) :
    clk ⟨.e1, n, a, 0xFF#8, d⟩ i = ⟨.e1, n + 1, a, 0#8, bit a i.micLin n⟩ := by simp [h]

/-- After a byte the line is released. -/
lemma clk_libera (h : n = 8 ∨ n = 16 ∨ n = 24) :
    clk ⟨.e1, n, a, 0xFF#8, d⟩ i = ⟨.e2, n, a, 0#8, d⟩ := by simp [h]

/-- A byte that is refused starts the configuration again. -/
lemma clk_nack (h : i.esclavo = true) : clk ⟨.e2, n, a, 0x7F#8, d⟩ i = ⟨.e0, 0, 0, 0x80#8, d⟩ := by
  simp [h]

/-- A byte that is acknowledged. -/
lemma clk_ack (h : i.esclavo = false) : clk ⟨.e2, n, a, 0x7F#8, d⟩ i = ⟨.e3, n, a, 0x80#8, d⟩ := by
  simp [h]

/-- The first bit of the next byte. -/
lemma clk_byte (h : n ≠ 24) :
    clk ⟨.e3, n, a, 0xFF#8, d⟩ i = ⟨.e1, n + 1, a, 0#8, bit a i.micLin n⟩ := by simp [h]

/-- After the third byte the line is pulled low. -/
lemma clk_cierre : clk ⟨.e3, 24, a, 0xFF#8, d⟩ i = ⟨.e4, 24, a, 0#8, false⟩ := by simp

/-- After the stop comes the next word. -/
lemma clk_palabra (h : a ≠ laddr) :
    clk ⟨.e4, n, a, 0xFF#8, d⟩ i = ⟨.e0, 0, a + 1, 0x80#8, true⟩ := by simp [h]

/-- After the stop of the last word the configuration is over. -/
lemma clk_final : clk ⟨.e4, n, laddr, 0xFF#8, d⟩ i = ⟨.e5, n, laddr, 0#8, true⟩ := by simp

/-- Nothing changes in `e5`. -/
lemma clk_fin : clk ⟨.e5, n, a, c, d⟩ i = ⟨.e5, n, a, c, d⟩ := by simp

end Edges

/-- An edge does what the rules say. -/
theorem clk_step (s : St) (i : In) : Step i s (clk s i) := by
  obtain ⟨ep, n, a, c, d⟩ := s
  by_cases hc : ep ≠ .e5 ∧ (ep = .e2 → c ≠ 0x7F#8) ∧ (ep ≠ .e2 → c ≠ 0xFF#8)
  · rw [clk_cuenta hc.1 hc.2.1 hc.2.2]
    exact .cuenta hc.1 hc.2.1 hc.2.2
  · cases ep with
    | e0 =>
      obtain rfl : c = 0xFF#8 := by simpa using hc
      rw [clk_inicio]
      exact .inicio
    | e1 =>
      obtain rfl : c = 0xFF#8 := by simpa using hc
      by_cases h : n = 8 ∨ n = 16 ∨ n = 24
      · rw [clk_libera h]
        exact .libera h
      · rw [clk_bit h]
        exact .bit h
    | e2 =>
      obtain rfl : c = 0x7F#8 := by simpa using hc
      cases h : i.esclavo with
      | true =>
        rw [clk_nack h]
        exact .nack h
      | false =>
        rw [clk_ack h]
        exact .ack h
    | e3 =>
      obtain rfl : c = 0xFF#8 := by simpa using hc
      by_cases h : n = 24
      · rw [h, clk_cierre]
        exact .cierre
      · rw [clk_byte h]
        exact .byte h
    | e4 =>
      obtain rfl : c = 0xFF#8 := by simpa using hc
      by_cases h : a = laddr
      · rw [h, clk_final]
        exact .final
      · rw [clk_palabra h]
        exact .palabra h
    | e5 =>
      rw [clk_fin]
      exact .fin

/-- The states reached from reset. The bit on the line after the first one of a word is the last one
loaded. -/
inductive Inv : St → Prop where
  | espera {a c d} : a ≤ laddr → 128 ≤ c.toNat → Inv ⟨.e0, 0, a, c, d⟩
  | inicio {a c} : a ≤ laddr → 128 ≤ c.toNat → Inv ⟨.e1, 0, a, c, false⟩
  | bit {n a c} (mic) : a ≤ laddr → n < 24 → Inv ⟨.e1, n + 1, a, c, bit a mic n⟩
  | baja {n a c} (mic) : a ≤ laddr → (n = 7 ∨ n = 15 ∨ n = 23) → c.toNat < 128 →
      Inv ⟨.e2, n + 1, a, c, AuSetup.bit a mic n⟩
  | alta {n a c} (mic) : a ≤ laddr → (n = 7 ∨ n = 15 ∨ n = 23) → 128 ≤ c.toNat →
      Inv ⟨.e3, n + 1, a, c, AuSetup.bit a mic n⟩
  | cierre {a c} : a ≤ laddr → Inv ⟨.e4, 24, a, c, false⟩
  | fin : Inv ⟨.e5, 24, laddr, 0#8, true⟩

/-- After reset the first start is awaited. -/
lemma inv_reset : Inv reset := .espera (Nat.zero_le _) (by decide)

/-- Before it wraps the cycle counter goes up by one. -/
lemma toNat_cuenta {c : BitVec 8} (h : c ≠ 0xFF#8) : (c + 1#8).toNat = c.toNat + 1 := by
  have ne : c.toNat ≠ 255 := fun e => h (BitVec.eq_of_toNat_eq e)
  have lt := c.isLt
  rw [BitVec.toNat_add, BitVec.toNat_ofNat]
  omega

/-- Within a low phase of the bus clock the counter stays below its half. -/
lemma toNat_baja {c : BitVec 8} (lt : c.toNat < 128) (h : c ≠ 0x7F#8) : (c + 1#8).toNat < 128 := by
  have ne : c.toNat ≠ 127 := fun e => h (BitVec.eq_of_toNat_eq e)
  rw [toNat_cuenta fun e => by rw [e] at lt; exact absurd lt (by decide)]
  omega

/-- Within a high phase of the bus clock the counter stays above its half. -/
lemma toNat_alta {c : BitVec 8} (le : 128 ≤ c.toNat) (h : c ≠ 0xFF#8) : 128 ≤ (c + 1#8).toNat := by
  rw [toNat_cuenta h]
  omega

/-- Every edge keeps the invariant. -/
theorem Inv.clk {s : St} (h : Inv s) (i : In) : Inv (clk s i) := by
  have step := clk_step s i
  generalize AuSetup.clk s i = s' at step
  cases step with
  | cuenta h5 hu hd =>
    cases h with
    | espera ha hc => exact .espera ha (toNat_alta hc (hd nofun))
    | inicio ha hc => exact .inicio ha (toNat_alta hc (hd nofun))
    | bit mic ha hn => exact .bit mic ha hn
    | baja mic ha hn hc => exact .baja mic ha hn (toNat_baja hc (hu rfl))
    | alta mic ha hn hc => exact .alta mic ha hn (toNat_alta hc (hd nofun))
    | cierre ha => exact .cierre ha
    | fin => exact absurd rfl h5
  | inicio => cases h with | espera ha hc => exact .inicio ha (by decide)
  | bit hn =>
    cases h with
    | inicio ha hc => exact .bit i.micLin ha (by decide)
    | bit mic ha lt => exact .bit i.micLin ha (by omega)
  | libera hn =>
    cases h with
    | inicio ha hc => exact absurd hn (by decide)
    | bit mic ha lt => exact .baja mic ha (by omega) (by decide)
  | nack hs => cases h with | baja mic ha hn hc => exact .espera (Nat.zero_le _) (by decide)
  | ack hs => cases h with | baja mic ha hn hc => exact .alta mic ha hn (by decide)
  | byte hn => cases h with | alta mic ha hn' hc => exact .bit i.micLin ha (by omega)
  | cierre => cases h with | alta mic ha hn hc => exact .cierre ha
  | palabra ha => cases h with | cierre le => exact .espera (Nat.lt_of_le_of_ne le ha) (by decide)
  | final => cases h with | cierre le => exact .fin
  | fin => exact h

/-! ## The phases -/

section Clock
variable {ep : Estado} {n a : ℕ} {c : BitVec 8} {d : Bool}

/-- At the start of a low phase the bus clock is low. -/
lemma sclk_00 : i2cSclk ⟨ep, n, a, 0#8, d⟩ = false := (by decide : (0#8).getLsbD 7 = false)

/-- At the end of a low phase the bus clock is still low. -/
lemma sclk_7F : i2cSclk ⟨ep, n, a, 0x7F#8, d⟩ = false := (by decide : (0x7F#8).getLsbD 7 = false)

/-- At the start of a high phase the bus clock is high. -/
lemma sclk_80 : i2cSclk ⟨ep, n, a, 0x80#8, d⟩ = true := (by decide : (0x80#8).getLsbD 7 = true)

/-- At the end of a high phase the bus clock is still high. -/
lemma sclk_FF : i2cSclk ⟨ep, n, a, 0xFF#8, d⟩ = true := (by decide : (0xFF#8).getLsbD 7 = true)

/-- The clock only rises in the middle of the count. -/
lemma sclk_cuenta (hc : c ≠ 0xFF#8) (h : c ≠ 0x7F#8) :
    i2cSclk ⟨ep, n, a, c + 1#8, d⟩ = i2cSclk ⟨ep, n, a, c, d⟩ := by
  change (c + 1#8).getLsbD 7 = c.getLsbD 7
  revert c
  decide

/-- The bus clock is high in the upper half of the counter. -/
lemma sclk_alta (h : 128 ≤ c.toNat) : i2cSclk ⟨ep, n, a, c, d⟩ = true := by
  change c.getLsbD 7 = true
  revert c
  decide

/-- The bus clock is low in the lower half of the counter. -/
lemma sclk_baja (h : c.toNat < 128) : i2cSclk ⟨ep, n, a, c, d⟩ = false := by
  change c.getLsbD 7 = false
  revert c
  decide

end Clock

end AuSetup
