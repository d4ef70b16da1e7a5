import TecMidi.Rx.Codificador
import TecMidi.Rx.MidiDec
import TecMidi.Rx.UartReception

/-!
# The two receivers agree

`RxDecMIDI` connects `uart_rx`, for 31250 baud at 50 MHz and with `ack` tied to `'1'`, to `midi_dec`.
Its pulses, too, are what the decoder reads from the bytes received (`rxDecMIDI_decodes`), and so on a
line of frames it reports what `codificador` reports: `receivers_agree`, for any bytes.
-/

namespace RxDecMIDI
open Sync Midi

/-- The generic map of `uart_rx`. -/
def generics : UartRx.Generics := ⟨31250, 50000000⟩

/-- The port map of `midi_dec`. -/
def ports (o : UartRx.Out) : MidiDec.In := ⟨o.byte, o.ready⟩

/-- The note and its pulses. -/
structure Out where
  nOn : Bool
  nOff : Bool
  keyCode : BitVec 8
  velCode : BitVec 8
deriving DecidableEq, Repr

/-- The two components of `RxDecMIDI`. -/
def components : Machine (UartRx.St × MidiDec.St) Bool MidiDec.Out :=
  (UartRx.uartRxAck generics).seq ports MidiDec.midiDec

/-- `RxDecMIDI` on its clock: the input is the line. -/
def rxDecMIDI : Machine (UartRx.St × MidiDec.St) Bool Out where
  next := components.next
  out s rx :=
    let o := components.out s rx
    ⟨o.keyon, o.keyoff, 0#1 ++ o.key, 0#1 ++ o.vel⟩

/-- The state forced by the reset. -/
def reset : UartRx.St × MidiDec.St := (UartRx.reset, MidiDec.reset)

/-- The event pulsed in a cycle, if any: key and velocity are the low seven bits of their codes. -/
def Out.event? (o : Out) : Option NoteEvent :=
  if o.nOn = true then some ⟨true, dataBits o.keyCode, dataBits o.velCode⟩
  else if o.nOff = true then some ⟨false, dataBits o.keyCode, dataBits o.velCode⟩
  else none

variable {w : ℕ → Bool} {t P : ℕ}

/-- The event pulsed in every cycle of a run from reset. -/
def events (w : ℕ → Bool) (t : ℕ) : Option NoteEvent := (rxDecMIDI.wave reset w t).event?

/-- The byte that `uart_rx` delivers in every cycle of a run from reset. -/
def bytes (w : ℕ → Bool) (t : ℕ) : Option Byte :=
  ((UartRx.uartRxAck generics).wave UartRx.reset w t).byte?

/-- The events of `RxDecMIDI` are those of its `midi_dec`. -/
lemma events_eq (w : ℕ → Bool) (t : ℕ) :
    events w t = (MidiDec.midiDec.wave MidiDec.reset
      (fun t => ports ((UartRx.uartRxAck generics).wave UartRx.reset w t)) t).event? := by
  have wave := congrFun ((UartRx.uartRxAck generics).wave_seq ports MidiDec.midiDec UartRx.reset
    MidiDec.reset w) t
  rw [← wave]
  have run (t : ℕ) : rxDecMIDI.run reset w t = components.run reset w t := by
    induction t with
    | zero => rfl
    | succ t ih => rw [Machine.run_succ, ih]; rfl
  have codes (d : BitVec 7) : dataBits (0#1 ++ d) = d := dataBits_dataByte d
  rw [events, Machine.wave, run]
  simp only [rxDecMIDI, Out.event?, codes]
  rfl

/-- From reset, the cycle of a `ready` pulse of `uart_rx` is spent in `idle`. -/
lemma run_ready (h : ((UartRx.uartRxAck generics).run UartRx.reset w t).jkready = true) :
    ((UartRx.uartRxAck generics).run UartRx.reset w t).st = .idle := by
  cases t with
  | zero => cases h
  | succ t =>
    rw [UartRx.run_jkready] at h
    exact UartRx.st_of_ctl (UartRx.clk_recend (m := _) (n := _) (c := _)
      (congrArg (UartRx.Ctl.mk · _ _ _) (of_decide_eq_true h)))

/-- From reset, `uart_rx` delivers its bytes as `midi_dec` needs them, on every line. -/
lemma midiDec_fed (w : ℕ → Bool) :
    MidiDec.Fed fun t => ports ((UartRx.uartRxAck generics).wave UartRx.reset w t) := by
  set s := fun t => (UartRx.uartRxAck generics).run UartRx.reset w t with hs
  have ready (t : ℕ) : (s (t + 1)).jkready = (s t).ready1 := UartRx.run_jkready t
  have idle {t : ℕ} (h : (s t).st = .idle) :
      (s (t + 1)).ctl = ⟨if (s t).rxdown = true then .wait0 else .idle, 0, 0, (s t).srbyte⟩ :=
    UartRx.clk_idle h
  have silent {t : ℕ} {q : UartRx.State} (h : (s t).st = q) (hq : q ≠ .recend) :
      (s (t + 1)).jkready = false := by
    rw [ready]
    exact decide_eq_false (by rw [h]; exact hq)
  constructor
  · intro t h
    have st0 : (s t).st = .idle := run_ready h
    have st1 := UartRx.st_of_ctl (idle st0)
    refine ⟨silent st0 nofun, silent st1 (by split <;> exact nofun), ?_⟩
    refine silent (t := t + 2) rfl ?_
    by_cases down : (s t).rxdown = true
    · rw [if_pos down] at st1
      exact UartRx.clk_wait0_ne st1
    · rw [if_neg down] at st1
      rw [UartRx.st_of_ctl (idle st1)]
      split <;> exact nofun
  · intro t h
    exact congrArg UartRx.Ctl.srbyte (idle (run_ready h))

/-- Four cycles after the last byte, `RxDecMIDI` has pulsed what the decoder reads from the bytes that
`uart_rx` received. -/
theorem rxDecMIDI_decodes (quiet : ∀ u < t, t ≤ u + 3 → bytes w u = none) :
    log (events w) t = decoder.answers .idle (log (bytes w) t) := by
  have silent (u : ℕ) (h : bytes w u = none) :
      ((UartRx.uartRxAck generics).wave UartRx.reset w u).ready = false := by
    cases hr : ((UartRx.uartRxAck generics).wave UartRx.reset w u).ready with
    | false => rfl
    | true => rw [bytes, UartRx.Out.byte?, hr] at h; cases h
  rw [show events w = _ from funext (events_eq w)]
  exact MidiDec.midiDec_decodes (midiDec_fed w) fun u lt le => silent u (quiet u lt le)

/-- The samples of `uart_rx` at 31250 baud fall into the bits of frames of 1530 to 1680 cycles. -/
lemma fits (lo : 1530 ≤ P) (hi : P ≤ 1680) : UartRx.Fits generics P := by
  have bit : generics.ciclosBit = 1600 := rfl
  have half : generics.ciclosMbit = 800 := rfl
  have sample (i : ℕ) : UartRx.sampleTime generics i = 2399 + i * 1600 := by
    rw [UartRx.sampleTime, bit, half]
  have ready : UartRx.readyTime generics = 15201 := rfl
  constructor
  · omega
  · omega
  · intro i h
    have first : (i + 1) * P ≤ (i + 1) * 1680 := Nat.mul_le_mul_left _ hi
    rw [sample]
    omega
  · intro i h
    have last : (i + 2) * 1530 ≤ (i + 2) * P := Nat.mul_le_mul_left _ lo
    rw [sample]
    omega
  · omega
  · omega

/-- On a line of frames that is high for its first two cycles, once it has been high for four cycles,
`RxDecMIDI` has pulsed what the decoder reads from the bytes sent. -/
theorem rxDecMIDI_line (lo : 1530 ≤ P) (hi : P ≤ 1680) (fs : List (ℕ × Byte))
    (lead : ∀ t < 2, Serial.line P fs t = true) :
    Emits (events (Serial.line P fs)) (decoder.answers .idle (fs.map Prod.snd))
      (Serial.duration P fs + 4) := by
  obtain ⟨idle, silent⟩ := UartRx.run_two (g := generics) (lead 0 (by omega)) (lead 1 (by omega))
  have none2 : ∀ t < 2, bytes (Serial.line P fs) t = none := silent
  obtain ⟨fs', rest, same, dur⟩ := Serial.line_lead (n := 2) (by omega) fs lead
  have received {m : ℕ} (h : Serial.duration P fs' ≤ m) :=
    UartRx.uartRx_line (fits lo hi) _ idle fs' h
  rw [← rest] at received
  have after : shift 2 (bytes (Serial.line P fs)) = fun t => ((UartRx.uartRxAck generics).wave
      ((UartRx.uartRxAck generics).run UartRx.reset (Serial.line P fs) 2)
      (shift 2 (Serial.line P fs)) t).byte? := Machine.shift_events _ _ _ UartRx.Out.byte? 2
  intro n long
  obtain ⟨m, rfl⟩ := Nat.exists_eq_add_of_le (show 2 ≤ n by omega)
  rw [rxDecMIDI_decodes, log_add, log_eq_nil none2, after, (received (by omega)).2, same]
  · rfl
  · intro u _ near
    rcases Nat.lt_or_ge u 2 with lt | ge
    · exact none2 u lt
    obtain ⟨v, rfl⟩ := Nat.exists_eq_add_of_le ge
    refine (congrFun after v).trans ?_
    exact UartRx.byte?_silent (received (m := v) (by omega)).1.jkready

/-- The two receivers agree: on every line of frames with 1530 to 1680 cycles per bit, whatever the
bytes and the gaps, that is high for at least its first two cycles, `codificador` and `RxDecMIDI` pulse
the same events, in the same order, each for one cycle on one output. -/
theorem receivers_agree (lo : 1530 ≤ P) (hi : P ≤ 1680) (r : BitVec 4) (fs : List (ℕ × Byte))
    (lead : ∀ t < 2, Serial.line P fs t = true) :
    (∃ evs n, Emits (Codificador.events r (Serial.line P fs)) evs n ∧
        Emits (events (Serial.line P fs)) evs n) ∧
      (∀ t, ((Codificador.codificador.wave (Codificador.reset r) (Serial.line P fs) t).nOn = false ∨
            (Codificador.codificador.wave (Codificador.reset r) (Serial.line P fs) t).nOff = false) ∧
          (Codificador.events r (Serial.line P fs) t ≠ none →
            Codificador.events r (Serial.line P fs) (t + 1) = none)) ∧
      ∀ t, ((rxDecMIDI.wave reset (Serial.line P fs) t).nOn = false ∨
          (rxDecMIDI.wave reset (Serial.line P fs) t).nOff = false) ∧
        (events (Serial.line P fs) t ≠ none → events (Serial.line P fs) (t + 1) = none) := by
  refine ⟨⟨_, _, Codificador.codificador_line lo (by omega) fs, rxDecMIDI_line lo hi fs lead⟩,
    Codificador.codificador_pulses _ _, fun t => ⟨?_, ?_⟩⟩
  · obtain ⟨one, -⟩ := MidiDec.event?_once (rxDecMIDI.run reset (Serial.line P fs) t).2
      ⟨0#8, true⟩ ⟨0#8, true⟩
    exact one
  · rw [events_eq, events_eq]
    exact (MidiDec.event?_once _ _ _).2

/-- A note, a byte that ends it early and a data byte, at 1600 cycles per bit. -/
theorem receivers_agree_example :
    ∃ evs n, Emits (Codificador.events 0#4
        (Serial.line 1600 [(2, 0x90#8), (0, 60#8), (5, 0x80#8), (0, 61#8)])) evs n ∧
      Emits (events (Serial.line 1600 [(2, 0x90#8), (0, 60#8), (5, 0x80#8), (0, 61#8)])) evs n :=
  (receivers_agree (P := 1600) (by omega) (by omega) 0#4 _ fun t ht => Serial.line_gap ht).1

end RxDecMIDI
