import TecMidi.Rx.UartRx

/-!
# `uart_rx` receives frames

The counterpart of `Reception.lean` for `uart_rx` with `ack` tied to `'1'`, for every bit length
`N = CICLOS_BIT` of at least four cycles of its own. A falling edge seen through the two synchronising
registers is confirmed after half a bit; from then on the line is sampled every `N` cycles exactly
(`run_bit`). `uartRx_frame` is about frames of any bit length `P` whose bits the samples fall into
(`Fits`), and `uartRx_line` about a line of such frames.
-/

namespace UartRx
open Sync

variable {g : Generics} {s : St} {w : ℕ → Bool} {c : BitVec 8} {n : ℕ}

/-- Half a bit and a bit, in the numbers that the proofs use. -/
lemma Generics.half (four : 4 ≤ g.ciclosBit) :
    2 ≤ g.ciclosMbit ∧ g.ciclosMbit + 2 ≤ g.ciclosBit ∧ g.ciclosBit ≤ 2 * g.ciclosMbit + 1 := by
  have h : g.ciclosMbit = g.ciclosBit / 2 := rfl
  omega

/-- The cycle, counted from the first low one, in which bit `n` of a frame is sampled. -/
def sampleTime (g : Generics) (n : ℕ) : ℕ := g.ciclosMbit + g.ciclosBit - 1 + n * g.ciclosBit

/-- The shift register after `n` samples of the line `w`. -/
def sampled (g : Generics) (w : ℕ → Bool) (c : BitVec 8) : ℕ → BitVec 8
  | 0 => c
  | n + 1 => shiftIn (w (sampleTime g n)) (sampled g w c n)

/-- The last `n` samples are in the top bits of the shift register. -/
lemma getLsbD_sampled (w : ℕ → Bool) (c : BitVec 8) {n j : ℕ} (hj : j < n) (h : j ≤ 7) :
    (sampled g w c n).getLsbD (7 - j) = w (sampleTime g (n - 1 - j)) :=
  Serial.getLsbD_shifted (r := sampled g w c) (x := fun n => w (sampleTime g n)) (fun _ => rfl) hj h

/-- After eight samples the register holds them. -/
lemma sampled_byte {b : Midi.Byte} (data : ∀ i < 8, w (sampleTime g i) = b.getLsbD i) :
    sampled g w c 8 = b := by
  apply BitVec.eq_of_getLsbD_eq
  intro i hi
  have bit := getLsbD_sampled (g := g) w c (n := 8) (j := 7 - i) (by omega) (by omega)
  rw [show 7 - (7 - i) = i by omega] at bit
  exact bit.trans (data i hi)

/-! ### Runs -/

/-- The synchronised line is one cycle late. -/
lemma run_rxd (t : ℕ) : ((uartRxAck g).run s w (t + 1)).rxd = w t := rfl

/-- The copy of the synchronised line is one cycle later. -/
lemma run_rxdd (t : ℕ) :
    ((uartRxAck g).run s w (t + 1)).rxdd = ((uartRxAck g).run s w t).rxd := rfl

/-- `ready` follows `recend` by one cycle. -/
lemma run_jkready (t : ℕ) :
    ((uartRxAck g).run s w (t + 1)).jkready = ((uartRxAck g).run s w t).ready1 := clk_jkready rfl

/-- While `ctmp` counts in `wait0` nothing else changes. -/
lemma run_wait0 (h : s.ctl = ⟨.wait0, 0, n, c⟩) {j : ℕ} (hj : j + 2 ≤ g.ciclosMbit) :
    ((uartRxAck g).run s w j).ctl = ⟨.wait0, j, n, c⟩ := by
  induction j with
  | zero => exact h
  | succ j ih => exact clk_wait0 (ih (by omega)) (by omega)

/-- The bit counter of `waitbit` counts up. -/
lemma run_waitbit (h : s.ctl = ⟨.waitbit, 0, n, c⟩) {j : ℕ} (hj : j + 3 ≤ g.ciclosBit) :
    ((uartRxAck g).run s w j).ctl = ⟨.waitbit, j, n, c⟩ := by
  induction j with
  | zero => exact h
  | succ j ih => exact clk_waitbit (ih (by omega)) (by omega)

/-- The state is part of what is controlled. -/
lemma st_of_ctl {s : St} {q : State} {m n : ℕ} {c : BitVec 8} (h : s.ctl = ⟨q, m, n, c⟩) :
    s.st = q := congrArg Ctl.st h

/-- A data bit: it is sampled after `CICLOS_BIT - 3` cycles, and the next one is awaited. -/
lemma run_bit (four : 4 ≤ g.ciclosBit) (h : s.ctl = ⟨.waitbit, 0, n, c⟩) (more : n < 8) :
    ((uartRxAck g).run s w g.ciclosBit).ctl =
        ⟨.waitbit, 0, n + 1, shiftIn (w (g.ciclosBit - 3)) c⟩ ∧
      ∀ t < g.ciclosBit, ((uartRxAck g).run s w t).st ≠ .recend := by
  obtain ⟨k, hk⟩ := Nat.exists_eq_add_of_le' (show 3 ≤ g.ciclosBit by omega)
  have wait := run_waitbit (g := g) (w := w) h (j := k) (by omega)
  have read : ((uartRxAck g).run s w (k + 1)).ctl = ⟨.readbit, k + 1, n, c⟩ := by
    refine (clk_waitbit_fin (g := g) wait (by omega)).trans ?_
    rw [if_neg (by omega)]
  have clear : ((uartRxAck g).run s w (k + 2)).ctl = ⟨.cltmp, k + 1, n + 1, shiftIn (w k) c⟩ :=
    clk_readbit read
  rw [show g.ciclosBit = k + 3 from hk, Nat.add_sub_cancel]
  refine ⟨clk_cltmp clear, fun t ht => ?_⟩
  rcases show t ≤ k ∨ t = k + 1 ∨ t = k + 2 by omega with le | rfl | rfl
  · rw [st_of_ctl (run_waitbit h (j := t) (by omega))]
    simp
  · rw [st_of_ctl read]
    simp
  · rw [st_of_ctl clear]
    simp

/-- The receiver waits for a start bit, and the line has been high. -/
structure Idle (s : St) : Prop where
  st : s.st = .idle
  rxd : s.rxd = true
  rxdd : s.rxdd = true
  jkready : s.jkready = false

/-- A falling edge leads to `wait0`, which counts half a bit. -/
lemma run_edge (idle : Idle s) (low : w 0 = false) :
    (∀ j, j + 2 ≤ g.ciclosMbit → ((uartRxAck g).run s w (2 + j)).ctl = ⟨.wait0, j, 0, s.srbyte⟩) ∧
      ∀ t ≤ g.ciclosMbit, ((uartRxAck g).run s w t).st ≠ .recend := by
  have run1 : ((uartRxAck g).run s w 1).ctl = ⟨.idle, 0, 0, s.srbyte⟩ := by
    refine (clk_idle idle.st).trans ?_
    rw [if_neg (by simp [St.rxdown, idle.rxd])]
  have down : ((uartRxAck g).run s w 1).rxdown = true := by
    rw [St.rxdown, run_rxd, run_rxdd, Machine.run_zero, idle.rxd, low]
    rfl
  have run2 : ((uartRxAck g).run s w 2).ctl = ⟨.wait0, 0, 0, s.srbyte⟩ := by
    refine (clk_idle (st_of_ctl run1)).trans ?_
    rw [if_pos down]
    exact congrArg (Ctl.mk _ _ _) (congrArg Ctl.srbyte run1)
  have half (j : ℕ) (hj : j + 2 ≤ g.ciclosMbit) :
      ((uartRxAck g).run s w (2 + j)).ctl = ⟨.wait0, j, 0, s.srbyte⟩ := by
    rw [Machine.run_add]
    exact run_wait0 run2 hj
  refine ⟨half, fun t ht => ?_⟩
  match t with
  | 0 =>
    rw [Machine.run_zero, idle.st]
    simp
  | 1 =>
    rw [st_of_ctl run1]
    simp
  | t + 2 =>
    rw [Nat.add_comm, st_of_ctl (half t (by omega))]
    simp

/-- A confirmed start bit leads to `waitbit`. -/
lemma run_start (four : 4 ≤ g.ciclosBit) (idle : Idle s) (low : w 0 = false)
    (still : w (g.ciclosMbit - 1) = false) :
    ((uartRxAck g).run s w (g.ciclosMbit + 2)).ctl = ⟨.waitbit, 0, 0, s.srbyte⟩ ∧
      ∀ t < g.ciclosMbit + 2, ((uartRxAck g).run s w t).st ≠ .recend := by
  obtain ⟨two, -, -⟩ := Generics.half four
  obtain ⟨k, hk⟩ := Nat.exists_eq_add_of_le' two
  obtain ⟨half, never⟩ := run_edge (g := g) idle low
  have clear : ((uartRxAck g).run s w (2 + k + 1)).ctl = ⟨.cltmp, k + 1, 0, s.srbyte⟩ := by
    refine (clk_wait0_fin (half k (by omega)) (by omega)).trans ?_
    rw [show 2 + k = k + 1 + 1 by omega, run_rxd, show k + 1 = g.ciclosMbit - 1 by omega, still]
    rfl
  rw [show g.ciclosMbit + 2 = 2 + k + 1 + 1 by omega]
  refine ⟨clk_cltmp clear, fun t ht => ?_⟩
  rcases show t ≤ g.ciclosMbit ∨ t = 2 + k + 1 by omega with le | rfl
  · exact never t le
  · rw [st_of_ctl clear]
    simp

/-- After a confirmed start bit and `n` data bits. -/
lemma run_bits (four : 4 ≤ g.ciclosBit) (idle : Idle s) (low : w 0 = false)
    (still : w (g.ciclosMbit - 1) = false) (hn : n ≤ 8) :
    ((uartRxAck g).run s w (g.ciclosMbit + 2 + n * g.ciclosBit)).ctl =
        ⟨.waitbit, 0, n, sampled g w s.srbyte n⟩ ∧
      ∀ t < g.ciclosMbit + 2 + n * g.ciclosBit, ((uartRxAck g).run s w t).st ≠ .recend := by
  induction n with
  | zero =>
    rw [Nat.zero_mul, Nat.add_zero]
    exact run_start four idle low still
  | succ n ih =>
    obtain ⟨run, silent⟩ := ih (by omega)
    obtain ⟨bit, quiet⟩ := run_bit (w := shift (g.ciclosMbit + 2 + n * g.ciclosBit) w) four run
      (by omega)
    have time : g.ciclosMbit + 2 + n * g.ciclosBit + (g.ciclosBit - 3) = sampleTime g n := by
      simp only [sampleTime]
      omega
    rw [Nat.succ_mul, ← Nat.add_assoc]
    refine ⟨?_, fun t ht => ?_⟩
    · rw [Machine.run_add, bit, shift_apply, time]
      rfl
    · rcases Nat.lt_or_ge t (g.ciclosMbit + 2 + n * g.ciclosBit) with lt | ge
      · exact silent t lt
      · obtain ⟨j, rfl⟩ := Nat.exists_eq_add_of_le ge
        rw [Machine.run_add]
        exact quiet j (by omega)

/-- The cycle, counted from the first low one, in which the byte of a frame is delivered. -/
def readyTime (g : Generics) : ℕ := g.ciclosMbit + 9 * g.ciclosBit + 1

/-- A whole frame: if the stop bit is high, the eight samples before it are delivered, and only they,
and the receiver is in `idle` again. -/
lemma run_frame (four : 4 ≤ g.ciclosBit) (idle : Idle s) (low : w 0 = false)
    (still : w (g.ciclosMbit - 1) = false) (stop : w (readyTime g - 3) = true) {b : Midi.Byte}
    (data : ∀ i < 8, w (sampleTime g i) = b.getLsbD i) :
    (∀ t < readyTime g, ((uartRxAck g).run s w t).jkready = false) ∧
      ((uartRxAck g).run s w (readyTime g)).jkready = true ∧
      ((uartRxAck g).run s w (readyTime g)).srbyte = b ∧
      ((uartRxAck g).run s w (readyTime g)).st = .idle := by
  obtain ⟨two, -, -⟩ := Generics.half four
  obtain ⟨run, silent⟩ := run_bits (n := 8) four idle low still (Nat.le_refl 8)
  obtain ⟨k, hk⟩ := Nat.exists_eq_add_of_le' (show 3 ≤ g.ciclosBit by omega)
  set e := g.ciclosMbit + 2 + 8 * g.ciclosBit with he
  have ready : readyTime g = e + k + 2 := by simp only [readyTime]; omega
  rw [sampled_byte data] at run
  have wait (j : ℕ) (hj : j ≤ k) : ((uartRxAck g).run s w (e + j)).ctl = ⟨.waitbit, j, 8, b⟩ := by
    rw [Machine.run_add]
    exact run_waitbit run (by omega)
  have recend : ((uartRxAck g).run s w (e + k + 1)).ctl = ⟨.recend, k + 1, 8, b⟩ := by
    refine (clk_waitbit_fin (wait k (Nat.le_refl k)) (by omega)).trans ?_
    rw [if_pos rfl, show e + k = readyTime g - 3 + 1 by omega, run_rxd, stop]
    rfl
  have done : ((uartRxAck g).run s w (readyTime g)).ctl = ⟨.idle, k + 1, 8, b⟩ := by
    rw [ready]
    exact clk_recend recend
  have never (t : ℕ) (ht : t < e + k + 1) : ((uartRxAck g).run s w t).st ≠ .recend := by
    rcases Nat.lt_or_ge t e with lt | ge
    · exact silent t lt
    · obtain ⟨j, rfl⟩ := Nat.exists_eq_add_of_le ge
      rw [st_of_ctl (wait j (by omega))]
      simp
  refine ⟨fun t ht => ?_, ?_, congrArg Ctl.srbyte done, st_of_ctl done⟩
  · cases t with
    | zero => exact idle.jkready
    | succ t =>
      rw [run_jkready]
      exact decide_eq_false (never t (by omega))
  · rw [ready, run_jkready]
    exact decide_eq_true (st_of_ctl recend)

/-! ### Lines -/

/-- The byte is delivered while `ready` is 1. -/
lemma byte?_ready {t : ℕ} {b : Midi.Byte} (ready : ((uartRxAck g).run s w t).jkready = true)
    (byte : ((uartRxAck g).run s w t).srbyte = b) : ((uartRxAck g).wave s w t).byte? = some b :=
  (pulse_ready ready _).trans (congrArg some byte)

/-- Nothing is delivered while it is 0. -/
lemma byte?_silent {t : ℕ} (silent : ((uartRxAck g).run s w t).jkready = false) :
    ((uartRxAck g).wave s w t).byte? = none := pulse_silent silent _

/-- Two high cycles after reset make the receiver idle, and bring no byte meanwhile. -/
lemma run_two (h0 : w 0 = true) (h1 : w 1 = true) :
    Idle ((uartRxAck g).run reset w 2) ∧ ∀ t < 2, ((uartRxAck g).wave reset w t).byte? = none := by
  have run1 := clk_idle (g := g) (s := reset) (i := ⟨w 0, true⟩) rfl
  have run2 := clk_idle (g := g) (i := ⟨w 1, true⟩) (st_of_ctl run1)
  rw [if_neg (by simp [St.rxdown, clk, h0])] at run2
  refine ⟨⟨st_of_ctl run2, h1, h0, rfl⟩, fun t ht => ?_⟩
  rcases show t = 0 ∨ t = 1 by omega with rfl | rfl <;> rfl

/-- While the line is high the receiver stays idle, and no byte is delivered. -/
lemma high_idle (s : St) (idle : Idle s) :
    Idle ((uartRxAck g).next s true) ∧ ((uartRxAck g).out s true).byte? = none := by
  refine ⟨⟨?_, rfl, idle.rxd, ?_⟩, ?_⟩
  · have stay := clk_idle (g := g) (i := ⟨true, true⟩) idle.st
    rw [if_neg (by simp [St.rxdown, idle.rxd])] at stay
    exact st_of_ctl stay
  · exact (clk_jkready rfl).trans (decide_eq_false (by rw [idle.st]; simp))
  · exact pulse_silent idle.jkready _

/-- The samples that the receiver takes fall into the bits of a frame with `P` cycles per bit, and the
frame is longer than the reception. -/
structure Fits (g : Generics) (P : ℕ) : Prop where
  four : 4 ≤ g.ciclosBit
  start : g.ciclosMbit ≤ P
  after : ∀ i < 8, (i + 1) * P ≤ sampleTime g i
  before : ∀ i < 8, sampleTime g i < (i + 2) * P
  stop : 9 * P + 3 ≤ readyTime g
  long : readyTime g < 10 * P

variable {P : ℕ}

/-- One frame, received from `idle`: its byte is delivered in one cycle, and then the receiver is idle on a
high line. -/
lemma frame_pulse (fits : Fits g P) (s : St) (w : ℕ → Bool) (b : Midi.Byte) (idle : Idle s)
    (hw : ∀ t < 10 * P, w t = Serial.frame P b t) :
    (∀ t < readyTime g, ((uartRxAck g).wave s w t).byte? = none) ∧
      ((uartRxAck g).wave s w (readyTime g)).byte? = some b ∧
      Idle ((uartRxAck g).run s w (readyTime g + 1)) ∧
      ∀ t, readyTime g < t → t < 10 * P → w t = true := by
  obtain ⟨two, -, -⟩ := Generics.half fits.four
  have stop := fits.stop
  have long := fits.long
  have start (t : ℕ) (ht : t < P) : w t = false :=
    (hw t (by omega)).trans (Serial.frame_start ht)
  have high (t : ℕ) (ge : 9 * P ≤ t) (lt : t < 10 * P) : w t = true :=
    (hw t lt).trans (Serial.frame_stop ge (by omega))
  have data (i : ℕ) (h : i < 8) : w (sampleTime g i) = b.getLsbD i := by
    have top : (i + 2) * P ≤ 9 * P := Nat.mul_le_mul_right P (by omega)
    have lt := fits.before i h
    exact (hw _ (by omega)).trans (Serial.frame_data h (fits.after i h) lt)
  have mid := fits.start
  obtain ⟨silent, ready, byte, back⟩ := run_frame fits.four idle (start 0 (by omega))
    (start _ (by omega)) (high _ (by omega) (by omega)) data
  obtain ⟨e, he⟩ := Nat.exists_eq_add_of_le' (show 2 ≤ readyTime g by omega)
  have rxd : ((uartRxAck g).run s w (readyTime g)).rxd = true := by
    rw [he, run_rxd]
    exact high _ (by omega) (by omega)
  refine ⟨fun t ht => byte?_silent (silent t ht), byte?_ready ready byte, ⟨?_, high _ (by omega) long, rxd, ?_⟩,
    fun t lt le => high t (by omega) le⟩
  · have stay := clk_idle (g := g) (i := ⟨w (readyTime g), true⟩) back
    rw [if_neg (by simp [St.rxdown, rxd])] at stay
    exact st_of_ctl stay
  · rw [run_jkready]
    exact decide_eq_false (by rw [back]; simp)

/-- One frame, received from `idle`, delivers its byte and nothing else. -/
theorem uartRx_frame (fits : Fits g P) (s : St) (w : ℕ → Bool) (b : Midi.Byte) (idle : Idle s)
    (hw : ∀ t < 10 * P, w t = Serial.frame P b t) :
    Idle ((uartRxAck g).run s w (10 * P)) ∧
      log (fun t => ((uartRxAck g).wave s w t).byte?) (10 * P) = [b] := by
  obtain ⟨silent, pulsed, idle', high⟩ := frame_pulse fits s w b idle hw
  exact Serial.frame_received (uartRxAck g) Out.byte? Idle high_idle fits.long silent pulsed idle' high

/-- `uart_rx` delivers the bytes of every line of frames, in order, and no others. -/
theorem uartRx_line (fits : Fits g P) (s : St) (idle : Idle s) (fs : List (ℕ × Midi.Byte)) {n : ℕ}
    (long : Serial.duration P fs ≤ n) :
    Idle ((uartRxAck g).run s (Serial.line P fs) n) ∧
      log (fun t => ((uartRxAck g).wave s (Serial.line P fs) t).byte?) n = fs.map Prod.snd :=
  Serial.line_received (uartRxAck g) Out.byte? Idle high_idle (uartRx_frame fits) idle fs long

end UartRx
