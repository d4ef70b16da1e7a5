import TecMidi.Rx.UartReception
import TecMidi.Rx.UartSafety

/-!
# What `uart_rx` reads from any line

The counterpart of `Muestreo.lean` for `uart_rx` with `ack` tied to `'1'`, for every bit length of at least four
cycles. `falta` is the number of cycles until `recend` if the reception is not given up, and every edge takes
one of them or leads back to `idle` (`falta_clk`). So a byte is delivered `readyTime` cycles after a falling edge
that is seen in `idle` (`Flanco`), and `uartRx_muestrea` describes the bytes of every line by these edges and
its samples.
-/

namespace UartRx
open Sync

variable {g : Generics}

/-- The cycles until `recend`. -/
def falta (g : Generics) (c : Ctl) : ℕ :=
  match c.st with
  | .idle => 0
  | .wait0 => g.ciclosMbit - 1 - c.ctmp + (9 - c.cbits) * g.ciclosBit
  | .cltmp => (9 - c.cbits) * g.ciclosBit
  | .waitbit => (8 - c.cbits) * g.ciclosBit + (g.ciclosBit - 1 - c.ctmp)
  | .readbit => (8 - c.cbits) * g.ciclosBit + 1
  | .recend => 1

/-- Every edge takes one, or leads back to `idle`. -/
lemma falta_clk {s : St} {bs : List Bool} (inv : Segura g s.ctl bs) (busy : s.st ≠ .idle) (i : In) :
    (clk g s i).st = .idle ∨ falta g (clk g s i).ctl + 1 = falta g s.ctl := by
  obtain ⟨tmp, wait0, waitbit, bits, readbit, -, -, -⟩ := inv
  generalize eq : s.ctl = c at *
  obtain ⟨q, m, n, r⟩ := c
  have st : s.st = q := congrArg Ctl.st eq
  simp only at tmp wait0 waitbit bits readbit
  cases q with
  | idle => exact absurd st busy
  | wait0 =>
    rcases Nat.eq_or_lt_of_le (wait0 rfl) with fin | more
    · cases rxd : s.rxd with
      | true =>
        left
        have next := clk_wait0_fin (i := i) eq fin
        rw [rxd] at next
        exact st_of_ctl next
      | false =>
        right
        rw [clk_wait0_fin eq fin, rxd, if_neg (by simp)]
        simp only [falta]
        omega
    · right
      rw [clk_wait0 eq more]
      simp only [falta]
      omega
  | cltmp =>
    right
    rw [clk_cltmp eq]
    simp only [falta]
    rw [show 9 - n = 8 - n + 1 by omega, Nat.add_one_mul (8 - n)]
    omega
  | waitbit =>
    rcases Nat.eq_or_lt_of_le (waitbit rfl) with fin | more
    · by_cases last : n = 8
      · cases rxd : s.rxd with
        | true =>
          right
          rw [clk_waitbit_fin eq fin, if_pos last, rxd, if_pos rfl, last]
          simp only [falta]
          omega
        | false =>
          left
          have next := clk_waitbit_fin (i := i) eq fin
          rw [if_pos last, rxd] at next
          exact st_of_ctl next
      · right
        rw [clk_waitbit_fin eq fin, if_neg last]
        simp only [falta]
        omega
    · right
      rw [clk_waitbit eq more]
      simp only [falta]
      omega
  | readbit =>
    right
    rw [clk_readbit eq]
    simp only [falta]
    rw [show 9 - (n + 1) = 8 - n by omega]
  | recend => exact .inl (st_of_ctl (clk_recend eq))

section Runs
variable (four : 4 ≤ g.ciclosBit) {w : ℕ → In}

/-- Before a cycle that is not in `idle` there is a last one that is. -/
lemma exists_idle {t : ℕ} (busy : ((uartRx g).run reset w t).st ≠ .idle) :
    ∃ e < t, ((uartRx g).run reset w e).st = .idle ∧
      ∀ u, e < u → u ≤ t → ((uartRx g).run reset w u).st ≠ .idle := by
  induction t with
  | zero => exact absurd rfl busy
  | succ t ih =>
    by_cases idle : ((uartRx g).run reset w t).st = .idle
    · refine ⟨t, Nat.lt_succ_self t, idle, fun u lo hi => ?_⟩
      rwa [Nat.le_antisymm hi lo]
    · obtain ⟨e, lt, idle', since⟩ := ih idle
      refine ⟨e, Nat.lt_succ_of_lt lt, idle', fun u lo hi => ?_⟩
      rcases Nat.eq_or_lt_of_le hi with rfl | lt'
      · exact busy
      · exact since u lo (Nat.le_of_lt_succ lt')

include four in
/-- Since then every cycle has taken one. -/
lemma falta_run {e t : ℕ} (et : e < t) (idle : ((uartRx g).run reset w e).st = .idle)
    (busy : ∀ u, e < u → u ≤ t → ((uartRx g).run reset w u).st ≠ .idle) :
    falta g ((uartRx g).run reset w t).ctl + t = e + (g.ciclosMbit + 9 * g.ciclosBit) := by
  obtain ⟨two, -, -⟩ := Generics.half four
  obtain ⟨k, rfl⟩ := Nat.exists_eq_add_of_le (show e + 1 ≤ t from et)
  clear et
  induction k with
  | zero =>
    have next := clk_idle (g := g) (i := w e) idle
    cases down : ((uartRx g).run reset w e).rxdown with
    | false =>
      rw [down] at next
      exact absurd (st_of_ctl next) (busy (e + 1) (Nat.lt_succ_self e) (Nat.le_refl _))
    | true =>
      rw [down, if_pos rfl] at next
      rw [Machine.run_succ, show (uartRx g).next = clk g from rfl, next]
      simp only [falta]
      omega
  | succ k ih =>
    have before := ih fun u lo hi => busy u lo (Nat.le_succ_of_le hi)
    have step := falta_clk (segura_run four w (e + 1 + k)) (busy _ (by omega) (by omega)) (w (e + 1 + k))
    have one := step.resolve_left (busy (e + 1 + k + 1) (by omega) (by omega))
    rw [← Nat.add_assoc (e + 1), Machine.run_succ, show (uartRx g).next = clk g from rfl]
    omega

include four in
/-- So `recend` comes at a fixed time after the last cycle in `idle`. -/
lemma recend_idle {t : ℕ} (end_ : ((uartRx g).run reset w t).st = .recend) :
    ∃ e, t + 1 = e + (g.ciclosMbit + 9 * g.ciclosBit) ∧ ((uartRx g).run reset w e).st = .idle ∧
      ∀ u, e < u → u ≤ t → ((uartRx g).run reset w u).st ≠ .idle := by
  obtain ⟨e, lt, idle, busy⟩ := exists_idle (t := t) (w := w) (g := g) (by rw [end_]; simp)
  have left := falta_run four lt idle busy
  have one : falta g ((uartRx g).run reset w t).ctl = 1 := by
    rw [falta, show ((uartRx g).run reset w t).ctl.st = .recend from end_]
  exact ⟨e, by omega, idle, busy⟩

end Runs

/-! ## With `ack` tied to `'1'` -/

variable {w : ℕ → Bool} {m : ℕ}

/-- A receiver at rest on a high line. -/
def reposo (c : BitVec 8) : St := ⟨.idle, true, true, c, 0, 0, false⟩

/-- A receiver at rest is ready for a frame. -/
lemma reposo_idle (c : BitVec 8) : Idle (reposo c) := ⟨rfl, rfl, rfl, rfl⟩

/-- A falling edge in cycle `m` is seen in `idle`. -/
structure Flanco (g : Generics) (w : ℕ → Bool) (m : ℕ) : Prop where
  idle : ((uartRxAck g).run reset w (m + 1)).st = .idle
  down : ((uartRxAck g).run reset w (m + 1)).rxdown = true

/-- An edge seen in `idle` is the same for every receiver. -/
lemma next_flanco {s : St} (idle : s.st = .idle) (down : s.rxdown = true) {v : ℕ → Bool} (low : v 0 = false) :
    (uartRxAck g).next s (v 1) = (uartRxAck g).run (reposo s.srbyte) v 2 := by
  obtain ⟨st, rxd, rxdd, c, m, n, jk⟩ := s
  obtain rfl : st = .idle := idle
  obtain ⟨rfl, rfl⟩ : rxd = false ∧ rxdd = true := of_decide_eq_true down
  rw [Machine.run_succ, Machine.run_succ, Machine.run_zero, low]
  rfl

namespace Flanco

/-- The line is low after the edge. -/
lemma low (f : Flanco g w m) : w m = false := (of_decide_eq_true f.down).1

/-- The line is high before the edge. -/
lemma high (f : Flanco g w m) : 0 < m ∧ w (m - 1) = true := by
  have rxdd := (of_decide_eq_true f.down).2
  cases m with
  | zero => cases rxdd
  | succ m => exact ⟨Nat.succ_pos m, rxdd⟩

/-- The reception of a frame from rest. -/
lemma run (f : Flanco g w m) {k : ℕ} (two : 2 ≤ k) : (uartRxAck g).run reset w (m + k) =
    (uartRxAck g).run (reposo ((uartRxAck g).run reset w (m + 1)).srbyte) (shift m w) k := by
  obtain ⟨j, rfl⟩ := Nat.exists_eq_add_of_le two
  have edge := next_flanco (g := g) f.idle f.down (v := shift m w) f.low
  rw [← Nat.add_assoc, Machine.run_add _ _ _ (m + 2), Machine.run_add _ (reposo _) _ 2, ← edge, shift_shift]
  rfl

end Flanco

/-- The line reads as a frame from cycle `m` on, with the byte `b`. -/
structure Lee (g : Generics) (w : ℕ → Bool) (m : ℕ) (b : Midi.Byte) : Prop where
  still : w (m + (g.ciclosMbit - 1)) = false
  data : ∀ i < 8, w (m + sampleTime g i) = b.getLsbD i
  stop : w (m + (readyTime g - 3)) = true

section Reception
variable (four : 4 ≤ g.ciclosBit)
include four

/-- What leads to `recend`. -/
lemma recend_flanco {t : ℕ} (end_ : ((uartRxAck g).run reset w t).st = .recend) :
    ∃ m, t + 1 = m + readyTime g ∧ Flanco g w m ∧ w (m + (g.ciclosMbit - 1)) = false ∧
      w (m + (readyTime g - 3)) = true ∧
      ∀ u, m + 1 < u → u ≤ t → ((uartRxAck g).run reset w u).st ≠ .idle := by
  have runs (t : ℕ) : (uartRxAck g).run reset w t = (uartRx g).run reset (fun t => ⟨w t, true⟩) t :=
    Machine.run_drive _ _ _ _ t
  obtain ⟨two, -, -⟩ := Generics.half four
  obtain ⟨e, time, idle, busy⟩ := recend_idle four (w := fun t => ⟨w t, true⟩) (by rw [← runs]; exact end_)
  simp only [← runs] at idle busy
  have down : ((uartRxAck g).run reset w e).rxdown = true := by
    by_contra up
    have next := clk_idle (g := g) (i := ⟨w e, true⟩) idle
    rw [if_neg up] at next
    exact busy (e + 1) (Nat.lt_succ_self e) (by omega) (st_of_ctl next)
  cases e with
  | zero => cases down
  | succ m =>
    have flanco : Flanco g w m := ⟨idle, down⟩
    refine ⟨m, by rw [readyTime]; omega, flanco, ?_, ?_, busy⟩
    · -- a high line would have led back to `idle`
      obtain ⟨k, hk⟩ := Nat.exists_eq_add_of_le' two
      obtain ⟨half, -⟩ := run_edge (g := g) (reposo_idle ((uartRxAck g).run reset w (m + 1)).srbyte)
        (w := shift m w) flanco.low
      have next := clk_wait0_fin (g := g) (i := ⟨shift m w (2 + k), true⟩) (half k (by omega)) (by omega)
      rw [← flanco.run (by omega)] at next
      have level : ((uartRxAck g).run reset w (m + (2 + k))).rxd = w (m + (g.ciclosMbit - 1)) := by
        rw [show m + (2 + k) = m + (g.ciclosMbit - 1) + 1 by omega]
        exact run_rxd _
      rw [level] at next
      cases still : w (m + (g.ciclosMbit - 1)) with
      | false => rfl
      | true =>
        rw [still] at next
        exact absurd (st_of_ctl next) (busy (m + (2 + k) + 1) (by omega) (by omega))
    · obtain ⟨q, rfl⟩ : ∃ q, t = q + 2 := ⟨t - 2, by omega⟩
      have rxd := (clk_recend_from (g := g) (i := ⟨w (q + 1), true⟩) end_).2.2.2
      rw [show m + (readyTime g - 3) = q by rw [readyTime]; omega]
      exact rxd

/-- With `ack` tied to `'1'`, `uart_rx` delivers the byte `b` in a cycle if and only if `readyTime` cycles before
it a falling edge was seen in `idle` and the line has read as a frame with that byte since. -/
theorem uartRx_muestrea (w : ℕ → Bool) (t : ℕ) (b : Midi.Byte) :
    ((uartRxAck g).wave reset w t).byte? = some b ↔
      ∃ m, t = m + readyTime g ∧ Flanco g w m ∧ Lee g w m b := by
  have frame {m : ℕ} {b : Midi.Byte} (flanco : Flanco g w m) (lee : Lee g w m b) :
      ((uartRxAck g).wave reset w (m + readyTime g)).byte? = some b := by
    obtain ⟨still, data, stop⟩ := lee
    obtain ⟨-, ready, byte, -⟩ := run_frame (w := shift m w) four (reposo_idle _) flanco.low still stop data
    rw [← flanco.run (by rw [readyTime]; omega)] at ready byte
    exact byte?_ready ready byte
  constructor
  · intro byte
    cases t with
    | zero => cases byte
    | succ t =>
      have ready : ((uartRxAck g).run reset w (t + 1)).jkready = true := by
        by_contra low
        rw [byte?_silent (Bool.eq_false_iff.mpr low)] at byte
        cases byte
      rw [run_jkready] at ready
      obtain ⟨m, time, flanco, still, stop, -⟩ := recend_flanco four (of_decide_eq_true ready)
      obtain ⟨b', data⟩ := Serial.exists_byte fun i => w (m + sampleTime g i)
      have lee : Lee g w m b' := ⟨still, data, stop⟩
      rw [time, frame flanco lee] at byte
      cases byte
      exact ⟨m, time, flanco, lee⟩
  · rintro ⟨m, rfl, flanco, lee⟩
    exact frame flanco lee

/-- Between two bytes there is nearly the time of a reception. -/
lemma bytes_apart {t t' : ℕ} (lt : t < t') (some : ((uartRxAck g).wave reset w t).byte? ≠ none)
    (some' : ((uartRxAck g).wave reset w t').byte? ≠ none) :
    t + (g.ciclosMbit + 9 * g.ciclosBit) ≤ t' := by
  have recend {u : ℕ} (some : ((uartRxAck g).wave reset w u).byte? ≠ none) :
      ∃ v, u = v + 1 ∧ ((uartRxAck g).run reset w v).st = .recend := by
    cases u with
    | zero => exact absurd rfl some
    | succ v =>
      refine ⟨v, rfl, ?_⟩
      by_contra ne
      refine some (byte?_silent ?_)
      rw [run_jkready]
      exact decide_eq_false ne
  obtain ⟨v, rfl, end_⟩ := recend some
  obtain ⟨v', rfl, end'⟩ := recend some'
  obtain ⟨m, time, -, -, -, -⟩ := recend_flanco four end_
  obtain ⟨m', time', flanco', -, -, busy⟩ := recend_flanco four end'
  have idle : ((uartRxAck g).run reset w (v + 1)).st = .idle := by
    change ((uartRxAck g).run reset w v).nextSt g = .idle
    rw [St.nextSt, end_]
  rw [readyTime] at time time'
  by_contra near
  exact busy (v + 1) (by omega) (by omega) idle

end Reception

/-- A frame with the smallest bit length. -/
theorem uartRx_muestrea_cuatro : ∃ m, 41 = m + readyTime ⟨1, 4⟩ ∧
    Flanco ⟨1, 4⟩ (Serial.line 4 [(2, 0x55#8)]) m ∧ Lee ⟨1, 4⟩ (Serial.line 4 [(2, 0x55#8)]) m 0x55#8 :=
  (uartRx_muestrea (g := ⟨1, 4⟩) (by decide) _ 41 0x55#8).mp (by decide +kernel)

end UartRx
