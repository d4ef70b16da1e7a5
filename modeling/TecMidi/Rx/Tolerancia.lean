import TecMidi.Rx.Muestreo

/-!
# The clock tolerance of `modulo1`

The lengths of a bit with which `modulo1` receives every line of frames are those from 1523 to 1691 cycles, and
no others. If the bits are longer, the stop bit is sampled in the last data bit, and a byte that ends with a low
one is lost (`larga`). If they are shorter, frames without gaps come faster than `modulo1` can deliver their
bytes, so some are lost in the long run whatever they are (`corta`).
-/

namespace Modulo1
open Sync UCmodulo1

/-- The bytes delivered on a line of frames. -/
def recibidos (P : ℕ) (fs : List (ℕ × Midi.Byte)) (t : ℕ) : Option Midi.Byte :=
  (modulo1.wave reset (Serial.line P fs) t).byte?

/-- During an attempt with a confirmed start bit `e0` is not entered. -/
lemma run_ocupado {s : St} {w : ℕ → Bool} (idle : s.ep = .e0) (low : w 0 = false) (still : w 801 = false)
    {t : ℕ} (pos : 0 < t) (lt : t < 15221) : (modulo1.run s w t).ep ≠ .e0 := by
  obtain ⟨run802, -⟩ := run_half idle low still
  rcases (by omega : t = 1 ∨ (2 ≤ t ∧ t < 802) ∨ t = 802 ∨ 803 ≤ t) with rfl | half | rfl | later
  · obtain ⟨ep, c, k, v⟩ := s
    obtain rfl : ep = .e0 := idle
    change (clk ⟨.e0, c, k, v⟩ (w 0)).ep ≠ .e0
    rw [clk_e0, low]
    simp
  · obtain ⟨j, rfl⟩ := Nat.exists_eq_add_of_le half.1
    rw [run_confirma idle low (by omega)]
    simp
  · rw [run802]
    simp
  · -- in the bit `n`, cycle `j`
    obtain ⟨n, j, hn, hj, rfl⟩ : ∃ n j, n ≤ 8 ∧ j < 1602 ∧ t = 803 + 1602 * n + j :=
      ⟨(t - 803) / 1602, (t - 803) % 1602, by omega, by omega, by omega⟩
    rw [Machine.run_add, (run_bits idle low still hn).1]
    rcases (by omega : j < 1600 ∨ j = 1600 ∨ j = 1601) with lt | rfl | rfl
    · rw [show (0x63F#12) = BitVec.ofNat 12 1599 from rfl, run_e4 (by omega) (by omega)]
      simp
    · rw [run_sample]
      simp
    · rw [Machine.run_succ, run_sample]
      change (clk _ _).ep ≠ .e0
      simp only [clk, es]
      split <;> simp

/-- A byte is delivered for a frame that has been sampled. -/
lemma recibidos_muestrea {P : ℕ} {fs : List (ℕ × Midi.Byte)} {t : ℕ} {b : Midi.Byte}
    (h : recibidos P fs t = some b) : ∃ m, t = m + 15221 ∧
      (modulo1.run reset (Serial.line P fs) m).ep = .e0 ∧ Trama (Serial.line P fs) m b :=
  (modulo1_muestrea _ t b).mp h

/-- Two bytes are at least the time of a reception apart. -/
lemma recibidos_apart {P : ℕ} {fs : List (ℕ × Midi.Byte)} {t t' : ℕ} (lt : t < t')
    (h : recibidos P fs t ≠ none) (h' : recibidos P fs t' ≠ none) : t + 15222 ≤ t' := by
  have e8 {u : ℕ} (some : recibidos P fs u ≠ none) : (modulo1.run reset (Serial.line P fs) u).ep = .e8 := by
    by_contra ne
    exact some (byte?_wave ne)
  exact bytes_apart lt (e8 h) (e8 h')

/-- The last byte is delivered soon after the line. -/
lemma recibidos_fin {P : ℕ} {fs : List (ℕ × Midi.Byte)} {t : ℕ} (h : Serial.duration P fs + 15221 ≤ t) :
    recibidos P fs t = none := by
  cases byte : recibidos P fs t with
  | none => rfl
  | some b =>
    obtain ⟨m, rfl, -, trama⟩ := recibidos_muestrea byte
    have high : Serial.line P fs m = true := Serial.line_end (by omega)
    cases trama.start.symm.trans high

/-- With short bits a long line without gaps has more bytes than can be delivered in its time. -/
lemma corta {P : ℕ} (short : P ≤ 1522) (b : Midi.Byte) (n : ℕ) :
    ¬ Emits (recibidos P (.replicate 15222 (0, b))) (.replicate 15222 b) n := by
  intro emits
  have total : Serial.duration P (.replicate 15222 (0, b)) ≤ 15222 * 15220 := by
    rw [Serial.duration_replicate]
    exact Nat.mul_le_mul_left _ (by omega)
  -- no byte is delivered after that
  have all : log (recibidos P (.replicate 15222 (0, b))) (15222 * 15220 + 15221) = .replicate 15222 b := by
    rw [← emits (n + (15222 * 15220 + 15221)) (Nat.le_add_right _ _)]
    exact (log_of_quiet (Nat.le_add_left _ _) fun t ge _ => recibidos_fin (by omega)).symm
  have few := length_log_lt (d := 15222) (by omega) (fun t t' => recibidos_apart)
    (e := recibidos P (.replicate 15222 (0, b))) (15222 * 15220 + 15221)
  rw [all, List.length_replicate] at few
  omega

/-- With long bits a byte whose last bit is the only low one is not received. -/
lemma larga {P : ℕ} (long : 1692 ≤ P) (t : ℕ) : recibidos P [(0, 0x7F#8)] t ≠ some 0x7F#8 := by
  intro byte
  obtain ⟨m, rfl, ep, trama⟩ := recibidos_muestrea byte
  have high (t : ℕ) : Serial.line P [(0, 0x7F#8)] t = true ↔ (P ≤ t ∧ t < 8 * P) ∨ 9 * P ≤ t := by
    rw [Serial.line_7F (by omega)]
    omega
  have low (t : ℕ) : Serial.line P [(0, 0x7F#8)] t = false ↔ ¬ ((P ≤ t ∧ t < 8 * P) ∨ 9 * P ≤ t) := by
    rw [← high t, Bool.not_eq_true]
  -- the first sample is high, the last one of the data is low and the stop bit is high
  have start := (low _).mp trama.start
  have first := (high _).mp (trama.data 0 (by omega))
  have last := (low _).mp (trama.data 7 (by omega))
  have stop := (high _).mp trama.stop
  simp only [sampleTime] at first last stop
  have zero : m = 0 := by
    by_contra pos
    have busy := run_ocupado (s := reset) (w := Serial.line P [(0, 0x7F#8)]) rfl ((low 0).mpr (by omega))
      ((low 801).mpr (by omega)) (Nat.pos_of_ne_zero pos)
    have later : 15221 ≤ m := Nat.le_of_not_lt fun lt => busy lt ep
    omega
  omega

/-- `modulo1` receives every line of frames if and only if a bit takes from 1523 to 1691 cycles. -/
theorem modulo1_tolerancia (P : ℕ) :
    (∀ fs, ∃ n, Emits (recibidos P fs) (fs.map Prod.snd) n) ↔ 1523 ≤ P ∧ P ≤ 1691 := by
  constructor
  · intro all
    constructor
    · by_contra short
      obtain ⟨n, emits⟩ := all (.replicate 15222 (0, 0#8))
      rw [List.map_replicate] at emits
      exact corta (by omega) 0#8 n emits
    · by_contra long
      obtain ⟨n, emits⟩ := all [(0, 0x7F#8)]
      have mem : 0x7F#8 ∈ log (recibidos P [(0, 0x7F#8)]) n := by
        rw [emits n (Nat.le_refl n)]
        exact List.mem_singleton_self _
      obtain ⟨t, -, byte⟩ := mem_log.mp mem
      exact larga (by omega) t byte
  · rintro ⟨lo, hi⟩ fs
    exact ⟨Serial.duration P fs, fun n le => (modulo1_line lo hi reset rfl fs le).2⟩

end Modulo1
