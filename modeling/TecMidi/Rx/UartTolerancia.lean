import Mathlib.Tactic.IntervalCases
import TecMidi.Rx.UartMuestreo

/-!
# The clock tolerance of `uart_rx`

For which lengths `P` of a bit `uart_rx`, with `ack` tied to `'1'` and bits of `N` cycles of its own, receives every
line of frames that is high in its first cycle: those with `N / 2 + 9 * N ≤ 10 * P` and
`9 * P + 2 ≤ N / 2 + 9 * N`, and no others (`uartRx_tolerancia`). For the failures see `Tolerancia.lean`.

With the shortest bits a frame may start while the byte of the one before it is being delivered. So a frame is
received here from any state that the next edge leads to `idle` from (`Presto`), and its byte is counted in the
cycle that samples its stop bit (`acaba`), two cycles before it is delivered.
-/

namespace UartRx
open Sync

variable {g : Generics} {s : St} {w : ℕ → Bool}

/-- The byte that ends with the sample of a cycle, if any. -/
def acaba (g : Generics) (s : St) : Option Midi.Byte := if s.nextSt g = .recend then some s.srbyte else none

/-- `uart_rx`, as seen by these samples. -/
def muestreo (g : Generics) : Machine St Bool (Option Midi.Byte) where
  next := (uartRxAck g).next
  out s _ := acaba g s

/-- The machine of the samples has the runs of `uart_rx`. -/
lemma run_muestreo (s : St) (w : ℕ → Bool) (t : ℕ) : (muestreo g).run s w t = (uartRxAck g).run s w t := by
  induction t with
  | zero => rfl
  | succ t ih =>
    rw [Machine.run_succ, ih]
    rfl

/-- The machine of the samples shows the byte that ends with a sample. -/
lemma wave_muestreo (s : St) (w : ℕ → Bool) (t : ℕ) :
    (muestreo g).wave s w t = acaba g ((uartRxAck g).run s w t) := by
  rw [Machine.wave, run_muestreo]
  rfl

/-- A byte is delivered two cycles after its stop bit has been sampled. -/
lemma byte?_acaba (s : St) (w : ℕ → Bool) (t : ℕ) :
    ((uartRxAck g).wave s w (t + 2)).byte? = acaba g ((uartRxAck g).run s w t) := by
  have ready : ((uartRxAck g).run s w (t + 2)).jkready =
      decide (((uartRxAck g).run s w t).nextSt g = .recend) := run_jkready (t + 1)
  by_cases end_ : ((uartRxAck g).run s w t).nextSt g = .recend
  · have st : ((uartRxAck g).run s w t).st = .waitbit :=
      (clk_recend_from (g := g) (i := ⟨w t, true⟩) end_).1
    have st' : ((uartRxAck g).run s w (t + 1)).st = .recend := end_
    have same : ((uartRxAck g).run s w (t + 1)).srbyte = ((uartRxAck g).run s w t).srbyte :=
      clk_srbyte (by simp [st])
    have same' : ((uartRxAck g).run s w (t + 2)).srbyte = ((uartRxAck g).run s w (t + 1)).srbyte :=
      clk_srbyte (by simp [st'])
    rw [acaba, if_pos end_]
    exact byte?_ready (ready.trans (decide_eq_true end_)) (same'.trans same)
  · rw [acaba, if_neg end_]
    exact byte?_silent (ready.trans (decide_eq_false end_))

/-- The next edge leads to `idle`, and the line has been high. -/
structure Presto (g : Generics) (s : St) : Prop where
  rxd : s.rxd = true
  next : s.nextSt g = .idle

/-- A high line keeps the receiver ready and silent. -/
lemma Presto.high (s : St) (presto : Presto g s) :
    Presto g ((muestreo g).next s true) ∧ (muestreo g).out s true = none := by
  refine ⟨⟨rfl, ?_⟩, if_neg (by simp [presto.next])⟩
  have st : ((muestreo g).next s true).st = .idle := presto.next
  have rxd : ((muestreo g).next s true).rxd = true := rfl
  rw [St.nextSt, st, St.rxdown, rxd]
  rfl

section Frame
variable (four : 4 ≤ g.ciclosBit)
include four

/-- The sample of the stop bit, and no other one before it. -/
lemma run_stop {b : Midi.Byte} (idle : Idle s) (low : w 0 = false) (still : w (g.ciclosMbit - 1) = false)
    (data : ∀ i < 8, w (sampleTime g i) = b.getLsbD i) :
    (∀ t < readyTime g - 1, ((uartRxAck g).run s w t).st ≠ .recend) ∧
      ((uartRxAck g).run s w (readyTime g - 2)).ctl = ⟨.waitbit, g.ciclosBit - 3, 8, b⟩ := by
  obtain ⟨two, -, -⟩ := Generics.half four
  obtain ⟨run, silent⟩ := run_bits (n := 8) four idle low still (Nat.le_refl 8)
  rw [sampled_byte data] at run
  have wait (j : ℕ) (hj : j + 3 ≤ g.ciclosBit) :
      ((uartRxAck g).run s w (g.ciclosMbit + 2 + 8 * g.ciclosBit + j)).ctl = ⟨.waitbit, j, 8, b⟩ := by
    rw [Machine.run_add]
    exact run_waitbit run hj
  constructor
  · intro t ht
    rcases Nat.lt_or_ge t (g.ciclosMbit + 2 + 8 * g.ciclosBit) with lt | ge
    · exact silent t lt
    · obtain ⟨j, rfl⟩ := Nat.exists_eq_add_of_le ge
      rw [readyTime] at ht
      rw [st_of_ctl (wait j (by omega))]
      simp
  · rw [show readyTime g - 2 = g.ciclosMbit + 2 + 8 * g.ciclosBit + (g.ciclosBit - 3) by
      rw [readyTime]
      omega]
    exact wait _ (by omega)

variable {P : ℕ} (lo : g.ciclosMbit + 9 * g.ciclosBit ≤ 10 * P) (hi : 9 * P + 2 ≤ g.ciclosMbit + 9 * g.ciclosBit)
include lo hi

/-- The samples of a frame fall into its bits. -/
lemma frame_sampled (b : Midi.Byte) {i : ℕ} (lt : i < 8) :
    sampleTime g i < 10 * P ∧ Serial.frame P b (sampleTime g i) = b.getLsbD i := by
  obtain ⟨two, short, -⟩ := Generics.half four
  have time : sampleTime g i + 1 = g.ciclosMbit + g.ciclosBit + i * g.ciclosBit := by
    rw [sampleTime]
    omega
  have bits : (i + 1) * P ≤ sampleTime g i ∧ sampleTime g i < (i + 2) * P := by
    generalize sampleTime g i = t at time ⊢
    interval_cases i <;> omega
  have top : (i + 2) * P ≤ 10 * P := Nat.mul_le_mul_right P (by omega)
  exact ⟨by omega, Serial.frame_data lt bits.1 bits.2⟩

/-- One frame, whose stop bit may end while its byte is delivered. -/
lemma presto_frame (s : St) (w : ℕ → Bool) (b : Midi.Byte) (presto : Presto g s)
    (hw : ∀ t < 10 * P, w t = Serial.frame P b t) :
    Presto g ((muestreo g).run s w (10 * P)) ∧ log (fun t => (muestreo g).wave s w t) (10 * P) = [b] := by
  obtain ⟨two, short, -⟩ := Generics.half four
  have ready : readyTime g = g.ciclosMbit + 9 * g.ciclosBit + 1 := rfl
  have start (t : ℕ) (ht : t < P) : w t = false := (hw t (by omega)).trans (Serial.frame_start ht)
  have stop (t : ℕ) (ge : 9 * P ≤ t) (lt : t < 10 * P) : w t = true :=
    (hw t lt).trans (Serial.frame_stop ge (by omega))
  have low := start 0 (by omega)
  have data (i : ℕ) (lt : i < 8) : w (sampleTime g i) = b.getLsbD i := by
    obtain ⟨inside, bit⟩ := frame_sampled four lo hi b lt
    exact (hw _ inside).trans bit
  -- from the second edge on the run is that of a receiver at rest
  have rest (j : ℕ) : (uartRxAck g).run s w (2 + j) = (uartRxAck g).run (reposo s.srbyte) w (2 + j) := by
    have st : ((uartRxAck g).run s w 1).st = .idle := presto.next
    have down : ((uartRxAck g).run s w 1).rxdown = true := decide_eq_true ⟨low, presto.rxd⟩
    have same : ((uartRxAck g).run s w 1).srbyte = s.srbyte := by
      refine clk_srbyte fun st : s.st = .readbit => ?_
      have next := presto.next
      rw [St.nextSt, st] at next
      cases next
    rw [Machine.run_add _ s, Machine.run_add _ (reposo _), ← same, ← next_flanco st down low]
    rfl
  obtain ⟨never, last⟩ := run_stop four (reposo_idle s.srbyte) low (start _ (by omega)) data
  obtain ⟨e, he⟩ := Nat.exists_eq_add_of_le (show 2 ≤ readyTime g - 2 by omega)
  rw [he, ← rest e, ← he] at last
  have level : ((uartRxAck g).run s w (readyTime g - 2)).rxd = true := by
    rw [show readyTime g - 2 = readyTime g - 3 + 1 by omega, run_rxd]
    exact stop _ (by omega) (by omega)
  have end_ : ((uartRxAck g).run s w (readyTime g - 2)).nextSt g = .recend := by
    have next := clk_waitbit_fin (g := g) (i := ⟨w (readyTime g - 2), true⟩) last (by omega)
    rw [if_pos rfl, level, if_pos rfl] at next
    exact st_of_ctl next
  have silent (t : ℕ) (ht : t < readyTime g - 2) : (muestreo g).wave s w t = none := by
    rw [wave_muestreo]
    refine if_neg fun early => ?_
    cases t with
    | zero => cases presto.next.symm.trans early
    | succ t =>
      have recend : ((uartRxAck g).run s w (t + 1 + 1)).st = .recend := early
      rw [show t + 1 + 1 = 2 + t by omega, rest] at recend
      exact never (2 + t) (by omega) recend
  have pulse : (muestreo g).wave s w (readyTime g - 2) = some b := by
    rw [wave_muestreo, acaba, if_pos end_]
    exact congrArg (fun c : Ctl => some c.srbyte) last
  have back : Presto g ((muestreo g).run s w (readyTime g - 2 + 1)) := by
    rw [run_muestreo]
    have st : ((uartRxAck g).run s w (readyTime g - 2 + 1)).st = .recend := end_
    refine ⟨stop _ (by omega) (by omega), ?_⟩
    rw [St.nextSt, st]
  exact Serial.frame_received (muestreo g) id (Presto g) Presto.high (show readyTime g - 2 < 10 * P by omega)
    silent pulse back fun t lt le => stop t (by omega) le

end Frame

/-- The bytes delivered on a line of frames. -/
def recibidos (g : Generics) (P : ℕ) (fs : List (ℕ × Midi.Byte)) (t : ℕ) : Option Midi.Byte :=
  ((uartRxAck g).wave reset (Serial.line P fs) t).byte?

section Tolerancia
variable (four : 4 ≤ g.ciclosBit) {P : ℕ}
include four

/-- A line whose bits have the right length is received. -/
lemma recibidos_line (lo : g.ciclosMbit + 9 * g.ciclosBit ≤ 10 * P)
    (hi : 9 * P + 2 ≤ g.ciclosMbit + 9 * g.ciclosBit) {fs : List (ℕ × Midi.Byte)}
    (high : Serial.line P fs 0 = true) : ∃ n, Emits (recibidos g P fs) (fs.map Prod.snd) n := by
  -- the first cycle leads from reset to a receiver that is ready for a frame
  have presto : Presto g ((muestreo g).run reset (Serial.line P fs) 1) := by
    have first : (muestreo g).run reset (Serial.line P fs) 1 = (uartRxAck g).next reset true := by
      rw [run_muestreo, ← high]
      rfl
    rw [first]
    exact ⟨rfl, rfl⟩
  obtain ⟨fs', rest, same, -⟩ := Serial.line_lead (n := 1) (show 0 < P by omega) fs fun t ht => by
    rwa [Nat.lt_one_iff.mp ht]
  refine ⟨3 + Serial.duration P fs', fun n le => ?_⟩
  obtain ⟨k, rfl⟩ := Nat.exists_eq_add_of_le (show 3 ≤ n by omega)
  obtain ⟨-, bytes⟩ := Serial.line_received (muestreo g) id (Presto g) Presto.high (presto_frame four lo hi)
    presto fs' (n := k) (by omega)
  have later : shift 3 (recibidos g P fs) = fun t => id ((muestreo g).wave
      ((muestreo g).run reset (Serial.line P fs) 1) (Serial.line P fs') t) := by
    funext t
    rw [← rest, id, wave_muestreo, run_muestreo, ← Machine.run_add, shift_apply, Nat.add_comm 3 t,
      Nat.add_comm 1 t]
    exact byte?_acaba reset _ (t + 1)
  have before : log (recibidos g P fs) 3 = [] := by
    have third : recibidos g P fs 2 = none := (byte?_acaba reset _ 0).trans rfl
    refine log_eq_nil fun t ht => ?_
    rcases (by omega : t = 0 ∨ t = 1 ∨ t = 2) with rfl | rfl | rfl
    · rfl
    · rfl
    · exact third
  rw [log_add, before, later, bytes, same, List.nil_append]

/-- The last byte is delivered soon after the line. -/
lemma recibidos_fin {fs : List (ℕ × Midi.Byte)} {t : ℕ} (h : Serial.duration P fs + readyTime g ≤ t) :
    recibidos g P fs t = none := by
  cases byte : recibidos g P fs t with
  | none => rfl
  | some b =>
    obtain ⟨m, rfl, flanco, -⟩ := (uartRx_muestrea four _ t b).mp byte
    cases flanco.low.symm.trans (Serial.line_end (by omega))

/-- A line is received only if there is time for its bytes. -/
lemma recibidos_bytes_le {fs : List (ℕ × Midi.Byte)} {n : ℕ}
    (emits : Emits (recibidos g P fs) (fs.map Prod.snd) n) :
    fs.length * (g.ciclosMbit + 9 * g.ciclosBit) ≤
      Serial.duration P fs + 2 * (g.ciclosMbit + 9 * g.ciclosBit) := by
  have all : log (recibidos g P fs) (Serial.duration P fs + readyTime g) = fs.map Prod.snd := by
    rw [← emits (n + (Serial.duration P fs + readyTime g)) (Nat.le_add_right _ _)]
    exact (log_of_quiet (Nat.le_add_left _ _) fun t ge _ => recibidos_fin four ge).symm
  have few := length_log_lt (d := g.ciclosMbit + 9 * g.ciclosBit) (by omega)
    (fun t t' lt h h' => bytes_apart four lt h h') (e := recibidos g P fs) (Serial.duration P fs + readyTime g)
  rw [all, List.length_map, readyTime] at few
  omega

/-- With short bits a long line without gaps has more bytes than can be delivered in its time. -/
lemma corta (short : 10 * P < g.ciclosMbit + 9 * g.ciclosBit) {k : ℕ}
    (many : 2 * (g.ciclosMbit + 9 * g.ciclosBit) < k) (b : Midi.Byte) (n : ℕ) :
    ¬ Emits (recibidos g P ((1, b) :: .replicate k (0, b))) (b :: .replicate k b) n := by
  intro emits
  rw [show b :: List.replicate k b = ((1, b) :: List.replicate k (0, b)).map Prod.snd by
    rw [List.map_cons, List.map_replicate]] at emits
  have le := recibidos_bytes_le four emits
  rw [List.length_cons, List.length_replicate, Serial.duration, Serial.duration_replicate] at le
  have slow := Nat.mul_le_mul_left (k + 1) (show 10 * P + 1 ≤ g.ciclosMbit + 9 * g.ciclosBit from short)
  rw [Nat.mul_add_one, Nat.add_one_mul k (10 * P)] at slow
  omega

/-- With long bits a byte whose last bit is the only low one is not received. -/
lemma larga (long : g.ciclosMbit + 9 * g.ciclosBit < 9 * P + 2) (t : ℕ) :
    recibidos g P [(1, 0x7F#8)] t ≠ some 0x7F#8 := by
  intro byte
  obtain ⟨m, rfl, flanco, still, data, stop⟩ := (uartRx_muestrea four _ t _).mp byte
  obtain ⟨two, -, -⟩ := Generics.half four
  have high (t : ℕ) : Serial.line P [(1, 0x7F#8)] t = true ↔
      t < 1 ∨ (1 + P ≤ t ∧ t < 1 + 8 * P) ∨ 1 + 9 * P ≤ t := Serial.line_7F (by omega)
  have low (t : ℕ) : Serial.line P [(1, 0x7F#8)] t = false ↔
      ¬ (t < 1 ∨ (1 + P ≤ t ∧ t < 1 + 8 * P) ∨ 1 + 9 * P ≤ t) := by
    rw [← high t, Bool.not_eq_true]
  -- the two falling edges, the first sample high, the last one of the data low and the stop bit high
  have edge := (low _).mp flanco.low
  have before := (high _).mp flanco.high.2
  have first := (high _).mp (data 0 (by omega))
  have last := (low _).mp (data 7 (by omega))
  have stop := (high _).mp stop
  have pos := flanco.high.1
  simp only [sampleTime, readyTime] at first last stop
  omega

end Tolerancia

/-- With `ack` tied to `'1'`, and bits of `N` cycles of its own, `uart_rx` receives every line of frames that is
high in its first cycle if and only if a bit takes `P` cycles with `N / 2 + 9 * N ≤ 10 * P` and
`9 * P + 2 ≤ N / 2 + 9 * N`. -/
theorem uartRx_tolerancia (four : 4 ≤ g.ciclosBit) (P : ℕ) :
    (∀ fs, Serial.line P fs 0 = true → ∃ n, Emits (recibidos g P fs) (fs.map Prod.snd) n) ↔
      g.ciclosMbit + 9 * g.ciclosBit ≤ 10 * P ∧ 9 * P + 2 ≤ g.ciclosMbit + 9 * g.ciclosBit := by
  constructor
  · intro all
    constructor
    · by_contra short
      obtain ⟨n, emits⟩ := all ((1, 0#8) :: .replicate (2 * (g.ciclosMbit + 9 * g.ciclosBit) + 1) (0, 0#8)) rfl
      rw [List.map_cons, List.map_replicate] at emits
      exact corta four (by omega) (Nat.lt_succ_self _) 0#8 n emits
    · by_contra long
      obtain ⟨n, emits⟩ := all [(1, 0x7F#8)] rfl
      have mem : 0x7F#8 ∈ log (recibidos g P [(1, 0x7F#8)]) n := by
        rw [emits n (Nat.le_refl n)]
        exact List.mem_singleton_self _
      obtain ⟨t, -, byte⟩ := mem_log.mp mem
      exact larga four (by omega) t byte
  · rintro ⟨lo, hi⟩ fs high
    exact recibidos_line four lo hi high

/-- At 31250 baud and 50 MHz 1520 cycles are enough for a bit, and 1519 are not. -/
theorem uartRx_tolerancia_31250 :
    (∀ fs, Serial.line 1520 fs 0 = true →
      ∃ n, Emits (recibidos ⟨31250, 50000000⟩ 1520 fs) (fs.map Prod.snd) n) ∧
    ¬ ∀ fs, Serial.line 1519 fs 0 = true →
      ∃ n, Emits (recibidos ⟨31250, 50000000⟩ 1519 fs) (fs.map Prod.snd) n :=
  ⟨(uartRx_tolerancia (g := ⟨31250, 50000000⟩) (by decide) 1520).mpr (by decide),
    fun all => absurd ((uartRx_tolerancia (g := ⟨31250, 50000000⟩) (by decide) 1519).mp all) (by decide)⟩

end UartRx
