import TecMidi.Rx.UartReception

/-!
# `uart_rx` on a noisy line

`uart_rx` with `ack` tied to `'1'`, for every bit length `N = CICLOS_BIT` of at least four cycles, on a line
that carries frames of that bit length and, in between, low pulses of less than half a bit. A low pulse
starts the half-bit wait as a start bit does, but the line is high again when `tmp0` looks at it.
-/

namespace UartRx
open Sync

variable {g : Generics} {s : St} {w : ℕ → Bool}

/-- The samples of frames with the receiver's own bit length fall into their bits. -/
lemma fits_own (four : 4 ≤ g.ciclosBit) : Fits g g.ciclosBit := by
  obtain ⟨two, short, -⟩ := Generics.half four
  constructor
  · exact four
  · omega
  · intro i _
    rw [sampleTime, Nat.succ_mul]
    omega
  · intro i _
    rw [sampleTime, Nat.add_mul]
    omega
  · rw [readyTime]
    omega
  · rw [readyTime]
    omega

/-- A segment of the line: a byte in a frame, or a low pulse and a bit length of high line. -/
inductive Tramo (g : Generics) where
  | byte (b : Midi.Byte)
  | pulso (n : ℕ) (corto : n ≤ g.ciclosBit / 2 - 1)

namespace Tramo

/-- The cycles that it takes. -/
def width : Tramo g → ℕ
  | .byte _ => 10 * g.ciclosBit
  | .pulso n _ => n + g.ciclosBit

/-- The level in cycle `t` of it. -/
def level : Tramo g → ℕ → Bool
  | .byte b, t => Serial.frame g.ciclosBit b t
  | .pulso n _, t => decide (n ≤ t)

/-- What is to be delivered in each cycle of a segment. -/
def entrega : Tramo g → ℕ → Option Midi.Byte
  | .byte b, t => if t = readyTime g then some b else none
  | .pulso _ _, _ => none

end Tramo

/-- A receiver at rest delivers nothing. -/
lemma byte?_idle {t : ℕ} (idle : Idle ((uartRxAck g).run s w t)) :
    ((uartRxAck g).wave s w t).byte? = none := byte?_silent idle.jkready

/-- Once idle, the receiver is idle and silent as long as the line is high. -/
lemma idle_until {m n : ℕ} (idle : Idle ((uartRxAck g).run s w m))
    (hw : ∀ t, m ≤ t → t < n → w t = true) : ∀ t, m ≤ t → t ≤ n → Idle ((uartRxAck g).run s w t) := by
  intro t ge le
  refine Machine.run_stays (P := Idle) ge idle fun u lo hi idle' => ?_
  rw [hw u lo (by omega)]
  exact (high_idle _ idle').1

/-- A frame, cycle by cycle. -/
lemma frame_cycles (four : 4 ≤ g.ciclosBit) (b : Midi.Byte) (idle : Idle s)
    (hw : ∀ t < 10 * g.ciclosBit, w t = Serial.frame g.ciclosBit b t) :
    ∀ t < 10 * g.ciclosBit,
      ((uartRxAck g).wave s w t).byte? = if t = readyTime g then some b else none := by
  obtain ⟨silent, pulsed, idle', high⟩ := frame_pulse (fits_own four) s w b idle hw
  intro t ht
  rcases Nat.lt_trichotomy t (readyTime g) with lt | rfl | gt
  · rw [if_neg (by omega)]
    exact silent t lt
  · rw [if_pos rfl]
    exact pulsed
  · rw [if_neg (by omega)]
    exact byte?_idle (idle_until idle' (fun u lo hi => high u lo hi) t gt (by omega))

/-- A low pulse of less than half a bit starts the half-bit wait, which ends in `idle`. -/
lemma pulso_ignored (four : 4 ≤ g.ciclosBit) (idle : Idle s) {n : ℕ} (corto : n ≤ g.ciclosBit / 2 - 1)
    (hw : ∀ t < n + g.ciclosBit, w t = decide (n ≤ t)) :
    Idle ((uartRxAck g).run s w (n + g.ciclosBit)) ∧
      ∀ t < n + g.ciclosBit, ((uartRxAck g).wave s w t).byte? = none := by
  obtain ⟨two, short, -⟩ := Generics.half four
  have half : g.ciclosMbit = g.ciclosBit / 2 := rfl
  have high (t : ℕ) (ge : n ≤ t) (lt : t < n + g.ciclosBit) : w t = true :=
    (hw t lt).trans (decide_eq_true ge)
  rcases Nat.eq_zero_or_pos n with zero | pos
  · have all := idle_until (g := g) (m := 0) (n := n + g.ciclosBit) idle fun t _ lt =>
      high t (by omega) lt
    exact ⟨all _ (Nat.zero_le _) (Nat.le_refl _), fun t lt => byte?_idle (all t (Nat.zero_le _) (by omega))⟩
  · have low : w 0 = false := (hw 0 (by omega)).trans (decide_eq_false (by omega))
    obtain ⟨wait, never⟩ := run_edge (g := g) idle low
    obtain ⟨k, hk⟩ := Nat.exists_eq_add_of_le' two
    -- the line is high again at the end of the wait
    have back : ((uartRxAck g).run s w (2 + k + 1)).ctl = ⟨.idle, k + 1, 0, s.srbyte⟩ := by
      refine (clk_wait0_fin (wait k (by omega)) (by omega)).trans ?_
      rw [show 2 + k = k + 1 + 1 by omega, run_rxd, high (k + 1) (by omega) (by omega)]
      rfl
    have idle' : Idle ((uartRxAck g).run s w (2 + k + 1)) := by
      refine ⟨st_of_ctl back, high _ (by omega) (by omega), ?_, ?_⟩
      · rw [run_rxdd, show 2 + k = k + 1 + 1 by omega, run_rxd]
        exact high _ (by omega) (by omega)
      · rw [run_jkready]
        exact decide_eq_false (never _ (by omega))
    have rest := idle_until (n := n + g.ciclosBit) idle' fun t lo hi => high t (by omega) hi
    refine ⟨rest _ (by omega) (Nat.le_refl _), fun t lt => ?_⟩
    rcases Nat.lt_or_ge t (2 + k + 1) with before | after
    · cases t with
      | zero => exact byte?_idle (t := 0) idle
      | succ t =>
        have silent : ((uartRxAck g).run s w (t + 1)).jkready = false := by
          rw [run_jkready]
          exact decide_eq_false (never t (by omega))
        exact byte?_silent silent
    · exact byte?_idle (rest t after (by omega))

/-! ### Noisy lines -/

/-- From rest, a frame is delivered and a short pulse is not, and both lead back to rest. -/
lemma tramo_cycles (four : 4 ≤ g.ciclosBit) (a : Tramo g) (s : St) (w : ℕ → Bool) (idle : Idle s)
    (hw : ∀ t < a.width, w t = a.level t) :
    Idle ((uartRxAck g).run s w a.width) ∧
      ∀ t < a.width, ((uartRxAck g).wave s w t).byte? = a.entrega t := by
  cases a with
  | byte b => exact ⟨(uartRx_frame (fits_own four) s w b idle hw).1, frame_cycles four b idle hw⟩
  | pulso n corto => exact pulso_ignored four idle corto hw

/-- `uart_rx` receives the segments of a line one by one. -/
lemma receives (four : 4 ≤ g.ciclosBit) :
    Segments.Receives (Tramo.width (g := g)) Tramo.level (uartRxAck g) Idle where
  high s idle := (high_idle s idle).1
  segment a s w idle hw := (tramo_cycles four a s w idle hw).1

/-- On a line that is high for two cycles after reset and then carries frames and low pulses of at most
`N / 2 - 1` cycles, in any number and with any gaps, `ready` is 1 in one cycle of each frame, with its byte,
and in no other. -/
theorem uartRx_ruido (four : 4 ≤ g.ciclosBit) (fs : List (ℕ × Tramo g)) (h0 : w 0 = true)
    (h1 : w 1 = true) (hw : ∀ t, w (2 + t) = Segments.line Tramo.width Tramo.level fs t) :
    (∀ t b, ((uartRxAck g).wave reset w t).byte? = some b ↔
        ∃ f ∈ Segments.starts Tramo.width fs, f.2 = .byte b ∧ t = 2 + f.1 + readyTime g) ∧
      (Segments.starts Tramo.width fs).map Prod.snd = fs.map Prod.snd ∧
      (Segments.starts Tramo.width fs).Pairwise fun f g => f.1 + f.2.width ≤ g.1 := by
  refine ⟨fun t b => ?_, Segments.starts_snd _ fs, Segments.starts_ordered _ fs⟩
  obtain ⟨idle, silent⟩ := run_two (g := g) h0 h1
  rcases Nat.lt_or_ge t 2 with lt | ge
  · rw [silent t lt]
    refine ⟨nofun, ?_⟩
    rintro ⟨f, -, -, rfl⟩
    omega
  · obtain ⟨u, rfl⟩ := Nat.exists_eq_add_of_le ge
    have line : shift 2 w = Segments.line Tramo.width Tramo.level fs := funext hw
    have cut := congrFun (Machine.shift_events (uartRxAck g) reset w Out.byte? 2) u
    rw [line] at cut
    refine (Eq.congr_left (show ((uartRxAck g).wave reset w (2 + u)).byte? = _ from cut)).trans ?_
    rw [(receives four).pulses Tramo.entrega (fun s idle => (high_idle s idle).2)
      (fun a s w idle hw => (tramo_cycles four a s w idle hw).2) idle fs u b]
    refine exists_congr fun f => and_congr_right fun _ => ?_
    obtain ⟨start, a⟩ := f
    cases a with
    | byte c =>
      have long := (fits_own four).long
      simp only [Tramo.width, Tramo.entrega, Option.ite_none_right_eq_some, Option.some.injEq,
        Tramo.byte.injEq]
      constructor
      · rintro ⟨lo, -, time, rfl⟩
        exact ⟨rfl, by omega⟩
      · rintro ⟨rfl, time⟩
        exact ⟨by omega, by omega, by omega, rfl⟩
    | pulso n corto =>
      constructor
      · rintro ⟨-, -, ev⟩
        cases ev
      · rintro ⟨eq, -⟩
        cases eq

/-- A byte and a low pulse, at the smallest bit length. -/
theorem uartRx_ruido_cuatro :
    ((uartRxAck ⟨1, 4⟩).wave reset (fun t => if t < 2 then true else Segments.line Tramo.width Tramo.level
      [(0, .byte 0x55#8), (1, (.pulso 1 (by decide) : Tramo ⟨1, 4⟩))] (t - 2)) 41).byte? = some 0x55#8 :=
  ((uartRx_ruido (by decide) [(0, .byte 0x55#8), (1, (.pulso 1 (by decide) : Tramo ⟨1, 4⟩))] rfl rfl
    fun t => by rw [if_neg (by omega), Nat.add_sub_cancel_left]).1 41 0x55#8).mpr
    ⟨(0, .byte 0x55#8), List.mem_cons_self .., rfl, rfl⟩

end UartRx
