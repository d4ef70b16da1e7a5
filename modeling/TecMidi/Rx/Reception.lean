import TecMidi.Rx.Modulo1

/-!
# `modulo1` receives frames

From `e0`, a low level in the first cycle is confirmed as a start bit 801 cycles later; from then on
the line is sampled every 1602 cycles (1600 counted by `value_pd`, and the states `e5` and `e6`), nine
times: eight data bits and the stop bit. `sampled` is what the shift register holds after a number of
samples; `run_bits` gives the whole state after each of them. `modulo1_frame` reads off what that means
for a frame of any bit length from 1523 to 1691 cycles, and `modulo1_line` for a line of frames.
-/

namespace Modulo1
open Sync UCmodulo1

/-- The cycle, counted from the first low one, in which bit `n` of a frame is sampled. -/
def sampleTime (n : ℕ) : ℕ := 2403 + 1602 * n

/-- A sample is taken 1600 cycles after the count of its bit has been loaded. -/
lemma sampleTime_eq (n : ℕ) : 803 + 1602 * n + 1600 = sampleTime n := by
  simp only [sampleTime]
  omega

/-- The shift register after the start bit and `n` samples of the line `w`. -/
def sampled (w : ℕ → Bool) (c : BitVec 10) : ℕ → BitVec 10
  | 0 => shiftIn (w 802) c
  | n + 1 => shiftIn (w (sampleTime n)) (sampled w c n)

/-- The last `n` samples are in the top bits of the shift register. -/
lemma getLsbD_sampled (w : ℕ → Bool) (c : BitVec 10) {n j : ℕ} (hj : j < n) (h : j ≤ 9) :
    (sampled w c n).getLsbD (9 - j) = w (sampleTime (n - 1 - j)) :=
  Serial.getLsbD_shifted (r := sampled w c) (x := fun n => w (sampleTime n)) (fun _ => rfl) hj h

section Run

variable {s : St} {w : ℕ → Bool} {c : BitVec 10} {k : BitVec 4}

/-- While `value_pd` counts down in `e2` nothing else changes. -/
lemma run_e2 {n j : ℕ} (hj : j ≤ n) (hn : n < 4096) :
    modulo1.run ⟨.e2, c, k, BitVec.ofNat 12 n⟩ w j = ⟨.e2, c, k, BitVec.ofNat 12 (n - j)⟩ := by
  induction j with
  | zero => rfl
  | succ j ih =>
    rw [Machine.run_succ, ih (by omega), show n - j = n - (j + 1) + 1 by omega]
    exact clk_e2_wait c k _ (by omega)

/-- The period counter of `e4` counts down. -/
lemma run_e4 {n j : ℕ} (hj : j ≤ n) (hn : n < 4096) :
    modulo1.run ⟨.e4, c, k, BitVec.ofNat 12 n⟩ w j = ⟨.e4, c, k, BitVec.ofNat 12 (n - j)⟩ := by
  induction j with
  | zero => rfl
  | succ j ih =>
    rw [Machine.run_succ, ih (by omega), show n - j = n - (j + 1) + 1 by omega]
    exact clk_e4_wait c k _ (by omega)

/-- From `e4` with a full count the line is sampled after 1600 cycles. -/
lemma run_sample : modulo1.run ⟨.e4, c, k, 0x63F#12⟩ w 1600 = ⟨.e5, c, k, 0xFFF#12⟩ := by
  rw [Machine.run_succ]
  exact (congrArg (clk · (w 1599)) (run_e4 (n := 1599) (Nat.le_refl _) (by omega))).trans
    (clk_e4_fin c k (w 1599))

/-- A sample that is not the last leads back to `e4`, with a full count. -/
lemma run_bit (more : k ≠ 0x0#4 ∧ k ≠ 0xF#4) :
    modulo1.run ⟨.e4, c, k, 0x63F#12⟩ w 1602 = ⟨.e4, shiftIn (w 1600) c, k - 1, 0x63F#12⟩ := by
  rw [Machine.run_succ, Machine.run_succ, run_sample]
  exact (congrArg (clk · (w 1601)) (clk_e5_more c k _ (w 1600) more)).trans
    (clk_e6 _ _ _ (w 1601))

/-- No byte is delivered from `e4` until its sample has been taken. -/
lemma run_bit_silent (more : k ≠ 0x0#4 ∧ k ≠ 0xF#4) {t : ℕ} (ht : t < 1602) :
    (modulo1.run ⟨.e4, c, k, 0x63F#12⟩ w t).ep ≠ .e8 := by
  rcases Nat.lt_or_ge t 1600 with lt | ge
  · rw [show (0x63F#12) = BitVec.ofNat 12 1599 from rfl, run_e4 (by omega) (by omega)]
    simp
  · rcases show t = 1600 ∨ t = 1601 by omega with rfl | rfl
    · rw [run_sample]
      simp
    · rw [Machine.run_succ, run_sample]
      refine ne_of_eq_of_ne (congrArg St.ep (clk_e5_more c k _ (w 1600) more)) ?_
      simp

/-- A start bit is confirmed in `e3` after 802 cycles; the shift register is left alone meanwhile. -/
lemma run_half (idle : s.ep = .e0) (low : w 0 = false) (still : w 801 = false) :
    modulo1.run s w 802 = ⟨.e3, s.codeAux, s.valueBt, 0xFFF#12⟩ ∧
      ∀ t ≤ 802, (modulo1.run s w t).ep ≠ .e8 ∧ (modulo1.run s w t).codeAux = s.codeAux := by
  obtain ⟨ep, c, k, v⟩ := s
  obtain rfl : ep = .e0 := idle
  have run1 : modulo1.run ⟨.e0, c, k, v⟩ w 1 = ⟨.e1, c, k, v⟩ := by
    refine (clk_e0 c k v (w 0)).trans ?_
    rw [low]
    rfl
  have run2 : modulo1.run ⟨.e0, c, k, v⟩ w 2 = ⟨.e2, c, k, BitVec.ofNat 12 799⟩ := by
    rw [Machine.run_succ, run1]
    exact clk_e1 c k v (w 1)
  have half (j : ℕ) (hj : j ≤ 799) :
      modulo1.run ⟨.e0, c, k, v⟩ w (2 + j) = ⟨.e2, c, k, BitVec.ofNat 12 (799 - j)⟩ := by
    rw [Machine.run_add, run2]
    exact run_e2 hj (by omega)
  have run802 : modulo1.run ⟨.e0, c, k, v⟩ w 802 = ⟨.e3, c, k, 0xFFF#12⟩ := by
    rw [Machine.run_succ, half 799 (Nat.le_refl _)]
    refine (clk_e2_fin c k (w 801)).trans ?_
    rw [still]
    rfl
  refine ⟨run802, fun t ht => ?_⟩
  match t with
  | 0 => simp
  | 1 => rw [run1]; simp
  | t + 2 =>
    rcases Nat.lt_or_ge t 800 with lt | ge
    · rw [Nat.add_comm, half t (by omega)]
      simp
    · rw [show t + 2 = 802 by omega, run802]
      simp

/-- A confirmed start bit leads to `e4` in 803 cycles. -/
lemma run_start (idle : s.ep = .e0) (low : w 0 = false) (still : w 801 = false) :
    modulo1.run s w 803 = ⟨.e4, shiftIn (w 802) s.codeAux, 0x8#4, 0x63F#12⟩ ∧
      ∀ t < 803, (modulo1.run s w t).ep ≠ .e8 := by
  obtain ⟨run802, before⟩ := run_half idle low still
  refine ⟨?_, fun t ht => (before t (by omega)).1⟩
  rw [Machine.run_succ, run802]
  exact clk_e3 _ _ _ (w 802)

/-- After a confirmed start bit and `n` further samples. -/
lemma run_bits (idle : s.ep = .e0) (low : w 0 = false) (still : w 801 = false) {n : ℕ} (hn : n ≤ 8) :
    modulo1.run s w (803 + 1602 * n) =
        ⟨.e4, sampled w s.codeAux n, BitVec.ofNat 4 (8 - n), 0x63F#12⟩ ∧
      ∀ t < 803 + 1602 * n, (modulo1.run s w t).ep ≠ .e8 := by
  induction n with
  | zero => exact run_start idle low still
  | succ n ih =>
    obtain ⟨run, silent⟩ := ih (by omega)
    have more : BitVec.ofNat 4 (8 - n) ≠ 0x0#4 ∧ BitVec.ofNat 4 (8 - n) ≠ 0xF#4 := by
      constructor <;> bv_omega
    have cut : 803 + 1602 * (n + 1) = (803 + 1602 * n) + 1602 := by omega
    have count : BitVec.ofNat 4 (8 - n) - 1 = BitVec.ofNat 4 (8 - (n + 1)) := by bv_omega
    refine ⟨?_, fun t ht => ?_⟩
    · rw [cut, Machine.run_add, run, run_bit more, sampled, shift_apply, sampleTime_eq, count]
    · rcases Nat.lt_or_ge t (803 + 1602 * n) with lt | ge
      · exact silent t lt
      · obtain ⟨j, rfl⟩ := Nat.exists_eq_add_of_le ge
        rw [Machine.run_add, run]
        exact run_bit_silent more (by omega)

/-- A whole frame: if the stop bit is high, the eight samples before it are delivered in cycle 15221,
and only there, and in the next cycle the receiver is in `e0` again. -/
lemma run_frame (idle : s.ep = .e0) (low : w 0 = false) (still : w 801 = false)
    (stop : w (sampleTime 8) = true) {b : Midi.Byte} (data : ∀ i < 8, w (sampleTime i) = b.getLsbD i) :
    (∀ t < 15221, (modulo1.run s w t).ep ≠ .e8) ∧
      (modulo1.run s w 15221).ep = .e8 ∧ (modulo1.run s w 15221).code = b ∧
      (modulo1.run s w 15222).ep = .e0 := by
  obtain ⟨run, silent⟩ := run_bits idle low still (n := 8) (Nat.le_refl _)
  have run15219 : modulo1.run s w 15219 = ⟨.e5, sampled w s.codeAux 8, 0x0#4, 0xFFF#12⟩ := by
    rw [show 15219 = 803 + 1602 * 8 + 1600 from rfl, Machine.run_add, run]
    exact run_sample
  have run15220 : modulo1.run s w 15220 = ⟨.e7, sampled w s.codeAux 9, 0xF#4, 0xFFF#12⟩ := by
    rw [Machine.run_succ, run15219]
    exact clk_e5_last _ _ (w 15219)
  have top : (sampled w s.codeAux 9).getLsbD 9 = true :=
    (getLsbD_sampled w s.codeAux (n := 9) (j := 0) (by omega) (by omega)).trans stop
  have run15221 : modulo1.run s w 15221 = ⟨.e8, sampled w s.codeAux 9, 0xF#4, 0xFFF#12⟩ := by
    rw [Machine.run_succ, run15220]
    refine (clk_e7 _ _ _ (w 15220)).trans ?_
    rw [top]
    rfl
  refine ⟨fun t ht => ?_, ?_, ?_, ?_⟩
  · rcases Nat.lt_or_ge t (803 + 1602 * 8) with lt | ge
    · exact silent t lt
    · obtain ⟨j, rfl⟩ := Nat.exists_eq_add_of_le ge
      rcases show j < 1600 ∨ j = 1600 ∨ j = 1601 by omega with lt | rfl | rfl
      · rw [Machine.run_add, run, show (0x63F#12) = BitVec.ofNat 12 1599 from rfl,
          run_e4 (by omega) (by omega)]
        simp
      · rw [run15219]
        simp
      · rw [run15220]
        simp
  · rw [run15221]
  · apply BitVec.eq_of_getLsbD_eq
    intro i hi
    rw [run15221, getLsbD_code _ hi, ← data i hi]
    have bit := getLsbD_sampled w s.codeAux (n := 9) (j := 8 - i) (by omega) (by omega)
    rw [show 9 - (8 - i) = i + 1 by omega, show 9 - 1 - (8 - i) = i by omega] at bit
    exact bit
  · rw [Machine.run_succ, run15221]
    exact congrArg St.ep (clk_e8 _ _ _ (w 15221))

end Run

/-- While the line is high `e0` is kept, and no byte is delivered. -/
lemma high_idle (s : St) (idle : s.ep = .e0) :
    (modulo1.next s true).ep = .e0 ∧ (modulo1.out s true).byte? = none := by
  obtain ⟨ep, c, k, v⟩ := s
  obtain rfl : ep = .e0 := idle
  exact ⟨rfl, rfl⟩

/-- No byte is delivered outside `e8`. -/
lemma byte?_wave {s : St} {w : ℕ → Bool} {t : ℕ} (h : (modulo1.run s w t).ep ≠ .e8) :
    (modulo1.wave s w t).byte? = none := by
  have silent : ready (modulo1.run s w t).ep = false := by simp [ready, h]
  exact pulse_silent silent _

/-- In `e8` the byte in the shift register is delivered. -/
lemma byte?_wave_e8 {s : St} {w : ℕ → Bool} {t : ℕ} (h : (modulo1.run s w t).ep = .e8) :
    (modulo1.wave s w t).byte? = some (modulo1.run s w t).code := by
  have delivered : ready (modulo1.run s w t).ep = true := by simp [ready, h]
  exact pulse_ready delivered _

variable {P : ℕ} (lo : 1523 ≤ P) (hi : P ≤ 1691)

include lo hi in
/-- The samples of a frame fall into its bits. -/
lemma frame_sampled (b : Midi.Byte) :
    (∀ i < 8, Serial.frame P b (sampleTime i) = b.getLsbD i) ∧
      Serial.frame P b (sampleTime 8) = true := by
  refine ⟨fun i h => ?_, ?_⟩
  · have first : (i + 1) * P ≤ (i + 1) * 1691 := Nat.mul_le_mul_left _ hi
    have last : (i + 2) * 1523 ≤ (i + 2) * P := Nat.mul_le_mul_left _ lo
    exact Serial.frame_data h (by simp only [sampleTime]; omega) (by simp only [sampleTime]; omega)
  · exact Serial.frame_stop (by simp only [sampleTime]; omega) (by omega)

include lo hi in
/-- One frame, received from `e0`, delivers its byte and nothing else. -/
theorem modulo1_frame (s : St) (w : ℕ → Bool) (b : Midi.Byte) (idle : s.ep = .e0)
    (hw : ∀ t < 10 * P, w t = Serial.frame P b t) :
    (modulo1.run s w (10 * P)).ep = .e0 ∧
      log (fun t => (modulo1.wave s w t).byte?) (10 * P) = [b] := by
  obtain ⟨data, stop⟩ := frame_sampled lo hi b
  have start (t : ℕ) (ht : t < P) : w t = false :=
    (hw t (by omega)).trans (Serial.frame_start ht)
  have agrees (i : ℕ) (h : i ≤ 8) : w (sampleTime i) = Serial.frame P b (sampleTime i) :=
    hw _ (by simp only [sampleTime]; omega)
  obtain ⟨silent, pulse, code, back⟩ :=
    run_frame idle (start 0 (by omega)) (start 801 (by omega)) ((agrees 8 (Nat.le_refl 8)).trans stop)
      fun i h => (agrees i (by omega)).trans (data i h)
  -- the rest of the stop bit is high, and the receiver waits for the next start bit
  exact Serial.frame_received modulo1 Out.byte? (fun s => s.ep = .e0) high_idle
    (show 15221 < 10 * P by omega) (fun t ht => byte?_wave (silent t ht))
    ((byte?_wave_e8 pulse).trans (congrArg some code)) back fun t lt le =>
      (hw t le).trans (Serial.frame_stop (by omega) (by omega))

include lo hi in
/-- `modulo1` delivers the bytes of every line of frames, in order, and no others. -/
theorem modulo1_line (s : St) (idle : s.ep = .e0) (fs : List (ℕ × Midi.Byte)) {n : ℕ}
    (long : Serial.duration P fs ≤ n) :
    (modulo1.run s (Serial.line P fs) n).ep = .e0 ∧
      log (fun t => (modulo1.wave s (Serial.line P fs) t).byte?) n = fs.map Prod.snd :=
  Serial.line_received modulo1 Out.byte? (fun s => s.ep = .e0) high_idle (modulo1_frame lo hi)
    idle fs long

end Modulo1
