import TecMidi.Rx.Codificador

/-!
# What `modulo1` reads from any line

On a line that carries no frames `modulo1` still reads bytes. From `e0`, a low level begins an attempt: it
is given up after 802 cycles if the line is high again in the middle of the start bit, and after 15221 if
it is low in the middle of the stop bit; otherwise a byte is delivered in cycle 15221. `e8_intento` says that
there is no other way to `e8`, so `modulo1_muestrea` describes the bytes of every line by its samples.

It follows that bytes are at least 15222 cycles apart, and notes at least twice as many (`notas_apart`).
-/

namespace Modulo1
open Sync UCmodulo1

variable {s : St} {w : ℕ → Bool}

/-- The start bit is being confirmed. -/
lemma run_confirma (idle : s.ep = .e0) (low : w 0 = false) {j : ℕ} (hj : j ≤ 799) :
    modulo1.run s w (2 + j) = ⟨.e2, s.codeAux, s.valueBt, BitVec.ofNat 12 (799 - j)⟩ := by
  obtain ⟨ep, c, k, v⟩ := s
  obtain rfl : ep = .e0 := idle
  have run1 : modulo1.run ⟨.e0, c, k, v⟩ w 1 = ⟨.e1, c, k, v⟩ := by
    refine (clk_e0 c k v (w 0)).trans ?_
    rw [low]
    rfl
  have run2 : modulo1.run ⟨.e0, c, k, v⟩ w 2 = ⟨.e2, c, k, BitVec.ofNat 12 799⟩ := by
    rw [Machine.run_succ, run1]
    exact clk_e1 c k v (w 1)
  rw [Machine.run_add, run2]
  exact run_e2 hj (by omega)

/-- Until then no byte is delivered. -/
lemma run_confirma_callado (idle : s.ep = .e0) (low : w 0 = false) {t : ℕ} (ht : t < 802) :
    (modulo1.run s w t).ep ≠ .e8 := by
  rcases (by omega : t = 0 ∨ t = 1 ∨ 2 ≤ t) with rfl | rfl | ge
  · rw [Machine.run_zero, idle]
    exact nofun
  · obtain ⟨ep, c, k, v⟩ := s
    obtain rfl : ep = .e0 := idle
    change (clk ⟨.e0, c, k, v⟩ (w 0)).ep ≠ .e8
    rw [clk_e0, low]
    exact nofun
  · obtain ⟨j, rfl⟩ := Nat.exists_eq_add_of_le ge
    rw [run_confirma idle low (by omega)]
    exact nofun

/-- A start bit that is not confirmed leads back to `e0`. -/
lemma run_falsa (idle : s.ep = .e0) (low : w 0 = false) (high : w 801 = true) :
    (modulo1.run s w 802).ep = .e0 := by
  rw [Machine.run_succ, show 801 = 2 + 799 from rfl, run_confirma idle low (Nat.le_refl 799)]
  refine (congrArg St.ep (clk_e2_fin _ _ (w (2 + 799)))).trans ?_
  rw [show w (2 + 799) = true from high]
  rfl

/-- And so does a low stop bit. -/
lemma run_mala (idle : s.ep = .e0) (low : w 0 = false) (still : w 801 = false)
    (stop : w (sampleTime 8) = false) :
    (∀ t < 15221, (modulo1.run s w t).ep ≠ .e8) ∧ (modulo1.run s w 15221).ep = .e0 := by
  obtain ⟨run, silent⟩ := run_bits idle low still (n := 8) (Nat.le_refl 8)
  have run15219 : modulo1.run s w 15219 = ⟨.e5, sampled w s.codeAux 8, 0x0#4, 0xFFF#12⟩ := by
    rw [show 15219 = 803 + 1602 * 8 + 1600 from rfl, Machine.run_add, run]
    exact run_sample
  have run15220 : modulo1.run s w 15220 = ⟨.e7, sampled w s.codeAux 9, 0xF#4, 0xFFF#12⟩ := by
    rw [Machine.run_succ, run15219]
    exact clk_e5_last _ _ (w 15219)
  have top : (sampled w s.codeAux 9).getLsbD 9 = false :=
    (getLsbD_sampled w s.codeAux (n := 9) (j := 0) (by omega) (by omega)).trans stop
  refine ⟨fun t ht => ?_, ?_⟩
  · rcases (by omega : t < 803 + 1602 * 8 ∨ 803 + 1602 * 8 ≤ t) with lt | ge
    · exact silent t lt
    · obtain ⟨j, rfl⟩ := Nat.exists_eq_add_of_le ge
      rcases (by omega : j < 1600 ∨ j = 1600 ∨ j = 1601) with lt | rfl | rfl
      · rw [Machine.run_add, run, show (0x63F#12) = BitVec.ofNat 12 1599 from rfl,
          run_e4 (by omega) (by omega)]
        exact nofun
      · rw [run15219]
        exact nofun
      · rw [run15220]
        exact nofun
  · rw [Machine.run_succ, run15220]
    refine (congrArg St.ep (clk_e7 _ _ _ (w 15220))).trans ?_
    rw [top]
    rfl

/-- The line reads as a frame from cycle `m` on, with the byte `b`. -/
structure Trama (w : ℕ → Bool) (m : ℕ) (b : Midi.Byte) : Prop where
  start : w m = false
  still : w (m + 801) = false
  data : ∀ i < 8, w (m + sampleTime i) = b.getLsbD i
  stop : w (m + sampleTime 8) = true

/-- From `e0` on, a byte is delivered when an attempt has come to its end. -/
lemma e8_intento (idle : s.ep = .e0) (t : ℕ) (e8 : (modulo1.run s w t).ep = .e8) :
    ∃ m, t = m + 15221 ∧ (modulo1.run s w m).ep = .e0 ∧ w m = false ∧ w (m + 801) = false ∧
      w (m + sampleTime 8) = true := by
  induction t using Nat.strongRecOn generalizing s w with
  | ind t ih =>
    -- the first attempt takes `n` cycles, and the others are those of the rest
    have rest {n : ℕ} (pos : 0 < n) (le : n ≤ t) (idle' : (modulo1.run s w n).ep = .e0) :
        ∃ m, t = m + 15221 ∧ (modulo1.run s w m).ep = .e0 ∧ w m = false ∧ w (m + 801) = false ∧
          w (m + sampleTime 8) = true := by
      obtain ⟨k, rfl⟩ := Nat.exists_eq_add_of_le le
      rw [Machine.run_add] at e8
      obtain ⟨m, rfl, ep, start, still, stop⟩ := ih k (by omega) idle' e8
      refine ⟨n + m, (Nat.add_assoc n m 15221).symm, ?_, start, ?_, ?_⟩
      · rw [Machine.run_add]
        exact ep
      · rw [Nat.add_assoc]
        exact still
      · rw [Nat.add_assoc]
        exact stop
    have pos : 0 < t := by
      apply Nat.pos_of_ne_zero
      rintro rfl
      cases idle.symm.trans e8
    cases low : w 0 with
    | true =>
      refine rest Nat.one_pos pos ?_
      have next := (high_idle s idle).1
      rw [← low] at next
      exact next
    | false =>
      cases still : w 801 with
      | true =>
        have le : 802 ≤ t := by
          by_contra lt
          exact run_confirma_callado idle low (by omega) e8
        exact rest (by omega) le (run_falsa idle low still)
      | false =>
        cases stop : w (sampleTime 8) with
        | false =>
          obtain ⟨silent, back⟩ := run_mala idle low still stop
          have le : 15221 ≤ t := by
            by_contra lt
            exact silent t (by omega) e8
          exact rest (by omega) le back
        | true =>
          obtain ⟨b, data⟩ := Serial.exists_byte fun i => w (sampleTime i)
          obtain ⟨silent, -, -, back⟩ := run_frame idle low still stop data
          rcases (by omega : t < 15221 ∨ t = 15221 ∨ 15222 ≤ t) with lt | rfl | ge
          · exact absurd e8 (silent t lt)
          · refine ⟨0, rfl, idle, low, ?_, ?_⟩
            · rw [Nat.zero_add]
              exact still
            · rw [Nat.zero_add]
              exact stop
          · exact rest (by omega) ge back

/-- On any line, `modulo1` delivers the byte `b` in a cycle if and only if 15221 cycles before it was in
`e0` and the line has read as a frame with that byte since. -/
theorem modulo1_muestrea (w : ℕ → Bool) (t : ℕ) (b : Midi.Byte) :
    (modulo1.wave reset w t).byte? = some b ↔
      ∃ m, t = m + 15221 ∧ (modulo1.run reset w m).ep = .e0 ∧ Trama w m b := by
  have frame {m : ℕ} {b : Midi.Byte} (ep : (modulo1.run reset w m).ep = .e0) (trama : Trama w m b) :
      (modulo1.wave reset w (m + 15221)).byte? = some b := by
    obtain ⟨start, still, data, stop⟩ := trama
    obtain ⟨-, pulse, code, -⟩ := run_frame (w := shift m w) ep start still stop data
    rw [← Machine.run_add] at pulse code
    rw [byte?_wave_e8 pulse, code]
  constructor
  · intro byte
    have e8 : (modulo1.run reset w t).ep = .e8 := by
      by_contra ne
      rw [byte?_wave ne] at byte
      cases byte
    obtain ⟨m, rfl, ep, start, still, stop⟩ := e8_intento (s := reset) rfl t e8
    obtain ⟨b', data⟩ := Serial.exists_byte fun i => w (m + sampleTime i)
    have trama : Trama w m b' := ⟨start, still, data, stop⟩
    rw [frame ep trama] at byte
    cases byte
    exact ⟨m, rfl, ep, trama⟩
  · rintro ⟨m, rfl, ep, trama⟩
    exact frame ep trama

/-- Between two bytes there are 15222 cycles at least. -/
lemma bytes_apart {t t' : ℕ} (lt : t < t') (e8 : (modulo1.run reset w t).ep = .e8)
    (e8' : (modulo1.run reset w t').ep = .e8) : t + 15222 ≤ t' := by
  obtain ⟨m, rfl, ep, start, still, stop⟩ := e8_intento (s := reset) rfl t' e8'
  by_contra near
  rcases (by omega : t = m ∨ m < t ∨ t < m) with rfl | after | before
  · cases ep.symm.trans e8
  · obtain ⟨b, data⟩ := Serial.exists_byte fun i => w (m + sampleTime i)
    obtain ⟨silent, -⟩ := run_frame (w := shift m w) ep start still stop data
    obtain ⟨k, rfl⟩ := Nat.exists_eq_add_of_le (Nat.le_of_lt after)
    rw [Machine.run_add] at e8
    exact silent k (by omega) e8
  · omega

end Modulo1

namespace Codificador
open Sync Midi

variable {w : ℕ → Bool} {r : BitVec 4} {m n t t' : ℕ}

/-- The inputs of `modulo2`. -/
abbrev entradas (w : ℕ → Bool) (t : ℕ) : Modulo2.In := puertos (Modulo1.modulo1.wave Modulo1.reset w t)

/-- `ready` is pulsed in `e8` only. -/
lemma ready_e8 (h : (entradas w t).ready = true) : (Modulo1.modulo1.run Modulo1.reset w t).ep = .e8 :=
  of_decide_eq_true h

/-- What the decoder waits for changes with a byte only. -/
lemma abs_changes (mn : m ≤ n) (ne : Modulo2.abs (entradas w) n ≠ Modulo2.abs (entradas w) m) :
    ∃ v, m ≤ v ∧ v < n ∧ (entradas w v).ready = true := by
  by_contra none_
  have low (v : ℕ) (lo : m ≤ v) (hi : v < n) : (entradas w v).ready = false :=
    Bool.eq_false_iff.mpr fun high => none_ ⟨v, lo, hi, high⟩
  obtain ⟨k, rfl⟩ := Nat.exists_eq_add_of_le mn
  apply ne
  clear none_ ne
  induction k with
  | zero => rfl
  | succ k ih =>
    rw [← Nat.add_assoc, Modulo2.abs_silent (low (m + k) (by omega) (by omega))]
    exact ih (by omega) fun v lo hi => low v lo (by omega)

/-- A note is pulsed three cycles after its velocity. -/
lemma nota_vel (h : events r w t ≠ none) : ∃ u, t = u + 3 ∧ (entradas w u).ready = true ∧
    ∃ on k, Modulo2.abs (entradas w) u = .vel on k := by
  obtain ⟨e, eq⟩ := Option.ne_none_iff_exists'.mp h
  rw [events, codificador, reset, Machine.wave_seq] at eq
  obtain ⟨u, rfl, ready, answer, -⟩ := Modulo2.event_byte (codificador_fed Modulo1.reset w) r eq
  refine ⟨u, rfl, ready, ?_⟩
  generalize Modulo2.abs (fun t => puertos (Modulo1.modulo1.wave Modulo1.reset w t)) u = a at answer ⊢
  cases a with
  | vel on k => exact ⟨on, k, rfl⟩
  | idle | key | running => cases answer

/-- On any line there are 30444 cycles at least between two notes: the key of the second one comes in the
meantime. -/
theorem notas_apart (lt : t < t') (h : events r w t ≠ none) (h' : events r w t' ≠ none) :
    t + 30444 ≤ t' := by
  obtain ⟨u, rfl, ready, on, k, vel⟩ := nota_vel h
  obtain ⟨u', rfl, ready', on', k', vel'⟩ := nota_vel h'
  obtain ⟨v, uv, vu, between⟩ : ∃ v, u + 1 ≤ v ∧ v < u' ∧ (entradas w v).ready = true := by
    apply abs_changes (by omega)
    rw [vel', Modulo2.abs_ready ready, vel, decoder_next_vel]
    exact nofun
  have first := Modulo1.bytes_apart uv (ready_e8 ready) (ready_e8 between)
  have second := Modulo1.bytes_apart vu (ready_e8 between) (ready_e8 ready')
  omega

/-- And before the first one. -/
lemma notas_first (h : events r w t ≠ none) : 30444 ≤ t := by
  obtain ⟨u, rfl, ready, on, k, vel⟩ := nota_vel h
  obtain ⟨v, -, vu, before⟩ : ∃ v, 0 ≤ v ∧ v < u ∧ (entradas w v).ready = true := by
    apply abs_changes (Nat.zero_le u)
    rw [vel]
    exact nofun
  obtain ⟨m, rfl, -⟩ := Modulo1.e8_intento (s := Modulo1.reset) rfl v (ready_e8 before)
  have second := Modulo1.bytes_apart vu (ready_e8 before) (ready_e8 ready)
  omega

end Codificador
