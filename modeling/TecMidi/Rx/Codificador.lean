import TecMidi.Rx.Reception
import TecMidi.Rx.Decoding

/-!
# `codificador`: from the MIDI line to note events

`codificador` connects `modulo1` to `modulo2`. Whatever happens on the line, `modulo1` delivers its
bytes as `modulo2` needs them (`codificador_fed`), so the pulses of `codificador` are what the decoder
reads from the bytes received (`codificador_decodes`). On a line that carries complete messages these
are the events of the messages: `codificador_messages`.
-/

namespace Codificador
open Sync Midi

/-- The signal `ack` is never driven and keeps its initial value. -/
def ack : Bool := true

/-- The port map of `modulo2`. -/
def puertos (o : Modulo1.Out) : Modulo2.In := ⟨o.ready, ack, o.code⟩

/-- `codificador` on its clock: the input is the line. -/
def codificador : Machine (Modulo1.St × Modulo2.St) Bool Modulo2.Out :=
  Modulo1.modulo1.seq puertos Modulo2.modulo2

/-- The state forced by the reset; `code_reg` keeps its content. -/
def reset (codeReg : BitVec 4) : Modulo1.St × Modulo2.St := (Modulo1.reset, Modulo2.reset codeReg)

variable {w : ℕ → Bool} {r : BitVec 4} {P : ℕ}

/-- The event pulsed in every cycle of a run from reset. -/
def events (r : BitVec 4) (w : ℕ → Bool) (t : ℕ) : Option NoteEvent :=
  (codificador.wave (reset r) w t).event?

/-- The byte that `modulo1` delivers in every cycle of a run from reset. -/
def bytes (w : ℕ → Bool) (t : ℕ) : Option Byte := (Modulo1.modulo1.wave Modulo1.reset w t).byte?

/-- Three edges after `e8` the control unit of `modulo1` is in `e0`, `e1` or `e2`. -/
lemma run_after_e8 {s : Modulo1.St} {t : ℕ} (h : (Modulo1.modulo1.run s w t).ep = .e8) :
    (Modulo1.modulo1.run s w (t + 1)).ep = .e0 ∧
      (Modulo1.modulo1.run s w (t + 1)).code = (Modulo1.modulo1.run s w t).code ∧
      (Modulo1.modulo1.run s w (t + 2)).ep ≠ .e8 ∧ (Modulo1.modulo1.run s w (t + 3)).ep ≠ .e8 := by
  have run1 := Modulo1.modulo1.run_succ s w t
  have run2 := Modulo1.modulo1.run_succ s w (t + 1)
  have run3 := Modulo1.modulo1.run_succ s w (t + 2)
  generalize Modulo1.modulo1.run s w t = q at h run1 ⊢
  obtain ⟨ep, c, k, v⟩ := q
  obtain rfl : ep = .e8 := h
  replace run1 := run1.trans (Modulo1.clk_e8 c k v (w t))
  rw [run1] at run2 ⊢
  replace run2 := run2.trans (Modulo1.clk_e0 c k v (w (t + 1)))
  rw [run2] at run3
  rw [run3, run2]
  refine ⟨rfl, rfl, ?_⟩
  cases w (t + 1)
  · exact ⟨nofun, nofun⟩
  · cases w (t + 2) <;> exact ⟨nofun, nofun⟩

/-- On every line `modulo1` delivers its bytes as `modulo2` needs them. -/
lemma codificador_fed (s : Modulo1.St) (w : ℕ → Bool) :
    Modulo2.Fed fun t => puertos (Modulo1.modulo1.wave s w t) where
  ack _ := rfl
  delivers := by
    have e8 {t : ℕ} (h : UCmodulo1.ready (Modulo1.modulo1.run s w t).ep = true) :
        (Modulo1.modulo1.run s w t).ep = .e8 := of_decide_eq_true h
    constructor
    · intro t h
      obtain ⟨ep1, -, ep2, ep3⟩ := run_after_e8 (e8 h)
      refine ⟨?_, decide_eq_false ep2, decide_eq_false ep3⟩
      exact decide_eq_false (by rw [ep1]; simp)
    · intro t h
      exact (run_after_e8 (e8 h)).2.1

/-- Four cycles after the last byte, `codificador` has pulsed what the decoder reads from the bytes
that `modulo1` received. -/
theorem codificador_decodes {t : ℕ} (quiet : ∀ u < t, t ≤ u + 3 → bytes w u = none) :
    log (events r w) t = decoder.answers .idle (log (bytes w) t) := by
  have silent (u : ℕ) (h : bytes w u = none) : (Modulo1.modulo1.wave Modulo1.reset w u).ready = false := by
    cases hr : (Modulo1.modulo1.wave Modulo1.reset w u).ready with
    | false => rfl
    | true => rw [bytes, Modulo1.Out.byte?, hr] at h; cases h
  have pulses : events r w = fun t => (Modulo2.modulo2.wave (Modulo2.reset r)
      (fun t => puertos (Modulo1.modulo1.wave Modulo1.reset w t)) t).event? := by
    funext t
    rw [events, codificador, reset, Machine.wave_seq]
  rw [pulses]
  exact Modulo2.modulo2_decodes (codificador_fed Modulo1.reset w) r fun u lt le =>
    silent u (quiet u lt le)

/-- On a line of frames, once it has been high for four cycles, `codificador` has pulsed what the
decoder reads from the bytes sent. -/
theorem codificador_line (lo : 1530 ≤ P) (hi : P ≤ 1690) (fs : List (ℕ × Byte)) :
    Emits (events r (Serial.line P fs)) (decoder.answers .idle (fs.map Prod.snd))
      (Serial.duration P fs + 4) := by
  intro n long
  have received {m : ℕ} (h : Serial.duration P fs ≤ m) :=
    Modulo1.modulo1_line (by omega) (by omega) Modulo1.reset rfl fs h
  refine (codificador_decodes fun u _ near => ?_).trans
    (congrArg (decoder.answers .idle) (received (by omega)).2)
  exact Modulo1.byte?_wave (by rw [(received (m := u) (by omega)).1]; simp)

/-- In every run a pulse is on one of the two outputs, and lasts one cycle. -/
theorem codificador_pulses (s : Modulo1.St × Modulo2.St) (w : ℕ → Bool) (t : ℕ) :
    ((codificador.wave s w t).nOn = false ∨ (codificador.wave s w t).nOff = false) ∧
      ((codificador.wave s w t).event? ≠ none → (codificador.wave s w (t + 1)).event? = none) := by
  obtain ⟨s1, s2⟩ := s
  rw [codificador, Machine.wave_seq]
  exact Modulo2.event?_once _ _ _ rfl

/-- A pulse comes with the data bits of the last two bytes received. -/
lemma codificador_datos {t : ℕ} {e : NoteEvent} (h : events r w t = some e) :
    ∃ bs k v, log (bytes w) t = bs ++ [k, v] ∧ dataBits k = e.key ∧ dataBits v = e.vel := by
  rw [events, codificador, reset, Machine.wave_seq] at h
  obtain ⟨u, rfl, -, answer, received⟩ := Modulo2.event_byte (codificador_fed Modulo1.reset w) r h
  generalize state : Modulo2.abs (fun t => puertos (Modulo1.modulo1.wave Modulo1.reset w t)) u = a at answer
  cases a with
  | idle => cases answer
  | key on => cases answer
  | vel on k =>
    obtain ⟨bs, b, before, rfl⟩ := decoder_vel state
    cases answer
    refine ⟨bs, b, _, ?_, rfl, rfl⟩
    refine received.trans ?_
    rw [before, List.append_assoc]
    rfl
  | running on => cases answer

/-- End to end: on a line that carries complete messages, in frames of 1600 cycles a bit and with any
gaps between them, `codificador` pulses exactly the notes of the messages, in order, each for one cycle
on the output of its kind and with its key and velocity. -/
theorem codificador_messages (r : BitVec 4) (ms : List Message) (fs : List (ℕ × Byte))
    (legal : Legal none ms) (sent : fs.map Prod.snd = ms.flatMap Message.bytes) :
    Emits (events r (Serial.line 1600 fs)) (ms.filterMap Message.event?)
        (Serial.duration 1600 fs + 4) ∧
      ∀ t, ((codificador.wave (reset r) (Serial.line 1600 fs) t).nOn = false ∨
          (codificador.wave (reset r) (Serial.line 1600 fs) t).nOff = false) ∧
        (events r (Serial.line 1600 fs) t ≠ none → events r (Serial.line 1600 fs) (t + 1) = none) := by
  refine ⟨?_, codificador_pulses (reset r) _⟩
  have line := codificador_line (r := r) (P := 1600) (by omega) (by omega) fs
  rwa [sent, show Dec.idle = Dec.between none from rfl, decoder_messages none ms legal] at line

/-- A note, a system message and two notes with running status. -/
theorem codificador_messages_example :
    Emits (events 0xF#4 (Serial.line 1600
        [(7, 0x90#8), (0, 60#8), (3, 100#8), (0, 0xB0#8), (1, 7#8), (0, 1#8), (0, 0x83#8), (9, 60#8),
          (0, 0#8), (0, 62#8), (2, 5#8)]))
      [⟨true, 60#7, 100#7⟩, ⟨false, 60#7, 0#7⟩, ⟨false, 62#7, 5#7⟩] (176022 + 4) :=
  (codificador_messages 0xF#4
    [.note ⟨true, 60#7, 100#7⟩ 0#4 false, .other ⟨0xB0#8, by decide⟩ [7#7, 1#7],
      .note ⟨false, 60#7, 0#7⟩ 3#4 false, .note ⟨false, 62#7, 5#7⟩ 3#4 true]
    _ (by simp [Legal]) (by decide)).1

end Codificador
