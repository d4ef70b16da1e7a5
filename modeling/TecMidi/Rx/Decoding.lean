import TecMidi.Rx.Modulo2

/-!
# `modulo2` decodes the bytes it is delivered

`Fed` is what `modulo2` needs of its inputs: bytes are delivered by pulses, and `ack` is tied to `'1'`.
`Owes` relates a state of `modulo2` to a state of the abstract decoder and to the events that the
decoder has answered and `modulo2` has yet to pulse; `owes_step` shows that every edge keeps it.
`modulo2_simulates` is the run lemma, `modulo2_decodes` the result once the machine has settled.
-/

namespace Modulo2
open Sync UCmodulo2 Midi

/-- Bytes are delivered by pulses, and `ack` is tied to `'1'`. -/
structure Fed (w : ℕ → In) : Prop where
  ack : ∀ t, (w t).ack = true
  delivers : Delivers (fun t => (w t).ready) (fun t => (w t).code)

/-- A byte arrived `n` cycles before cycle `t`. -/
abbrev Arrived (w : ℕ → In) (n t : ℕ) : Prop := Since (fun t => (w t).ready) n t

/-- In cycle `t` the state `s` stands for the decoder state `a`, with the events `p` still to come. -/
def Owes (w : ℕ → In) (t : ℕ) (s : St) (a : Dec) (p : List NoteEvent) : Prop :=
  match s.ep with
  | .e0 => a = .idle ∧ p = []
  | .e1 => Arrived w 1 t ∧ a = .status (w t).code ∧ p = []
  | .e10 => Arrived w 2 t ∧ a = (if s.tipo1 = true then .key s.c4 else .idle) ∧ p = []
  | .e2 => a = .key s.c4 ∧ p = []
  | .e3 => Arrived w 1 t ∧ a = .vel s.c4 (dataBits (w t).code) ∧ p = []
  | .e4 => a = .vel s.c4 s.key ∧ p = []
  | .e5 => Arrived w 1 t ∧ a = .running s.c4 ∧ p = [⟨s.c4, s.key, dataBits (w t).code⟩]
  | .e6 => Arrived w 2 t ∧ a = .running s.c4 ∧ p = [⟨s.c4, s.key, s.vel⟩]
  | .e7 => Arrived w 3 t ∧ s.c4 = false ∧ a = .running s.c4 ∧ p = [⟨false, s.key, s.vel⟩]
  | .e8 => Arrived w 3 t ∧ s.c4 = true ∧ a = .running s.c4 ∧ p = [⟨true, s.key, s.vel⟩]
  | .e9 => a = .running s.c4 ∧ p = []

variable {w : ℕ → In} {t : ℕ}

/-- Every edge keeps the relation to the decoder. -/
lemma owes_step (d : Fed w) {s : St} {a : Dec} {p : List NoteEvent} (h : Owes w t s a p) :
    ∃ p', Owes w (t + 1) (clk s (w t)) (decoder.after a (w t).byte?.toList) p' ∧
      p ++ decoder.answers a (w t).byte?.toList = (modulo2.out s (w t)).event?.toList ++ p' := by
  obtain ⟨ep, r, k, v⟩ := s
  cases ep with
  | e0 =>
    obtain ⟨rfl, rfl⟩ := h
    refine ⟨[], ?_⟩
    rw [clk_e0]
    cases hr : (w t).ready with
    | true => simpa [In.byte?, hr, Owes, d.delivers.stays t hr, modulo2, nOn, nOff, Out.event?]
        using d.delivers.since_one hr
    | false => simp [In.byte?, hr, Owes, modulo2, nOn, nOff, Out.event?]
  | e1 =>
    obtain ⟨since, rfl, rfl⟩ := h
    have quiet := d.delivers.silent since (by omega) (by omega)
    refine ⟨[], ?_⟩
    rw [clk_e1]
    have note := tipo1_codeReg k v (w t).code
    simpa [In.byte?, quiet, Owes, modulo2, nOn, nOff, Out.event?, note, St.c4, Dec.status,
      isNoteOn] using since.succ
  | e10 =>
    obtain ⟨since, rfl, rfl⟩ := h
    have quiet := d.delivers.silent since (by omega) (by omega)
    refine ⟨[], ?_⟩
    rw [clk_e10]
    cases hn : St.tipo1 ⟨.e10, r, k, v⟩ <;>
      simp [In.byte?, quiet, Owes, modulo2, nOn, nOff, Out.event?, St.c4]
  | e2 =>
    obtain ⟨rfl, rfl⟩ := h
    refine ⟨[], ?_⟩
    rw [clk_e2]
    cases hr : (w t).ready with
    | true => simpa [In.byte?, hr, Owes, d.delivers.stays t hr, modulo2, nOn, nOff, Out.event?, St.c4]
        using d.delivers.since_one hr
    | false => simp [In.byte?, hr, Owes, modulo2, nOn, nOff, Out.event?, St.c4]
  | e3 =>
    obtain ⟨since, rfl, rfl⟩ := h
    have quiet := d.delivers.silent since (by omega) (by omega)
    refine ⟨[], ?_⟩
    rw [clk_e3]
    simp [In.byte?, quiet, Owes, modulo2, nOn, nOff, Out.event?, St.c4]
  | e4 =>
    obtain ⟨rfl, rfl⟩ := h
    rw [clk_e4]
    cases hr : (w t).ready with
    | true =>
      refine ⟨[⟨r.getLsbD 0, k, dataBits (w t).code⟩], ?_⟩
      simpa [In.byte?, hr, Owes, d.delivers.stays t hr, modulo2, nOn, nOff, Out.event?, St.c4]
        using d.delivers.since_one hr
    | false => exact ⟨[], by simp [In.byte?, hr, Owes, modulo2, nOn, nOff, Out.event?, St.c4]⟩
  | e5 =>
    obtain ⟨since, rfl, rfl⟩ := h
    have quiet := d.delivers.silent since (by omega) (by omega)
    refine ⟨[⟨r.getLsbD 0, k, dataBits (w t).code⟩], ?_⟩
    rw [clk_e5]
    simpa [In.byte?, quiet, Owes, modulo2, nOn, nOff, Out.event?, St.c4] using since.succ
  | e6 =>
    obtain ⟨since, rfl, rfl⟩ := h
    have quiet := d.delivers.silent since (by omega) (by omega)
    refine ⟨[⟨r.getLsbD 0, k, v⟩], ?_⟩
    rw [clk_e6]
    cases hc : r[0] <;>
      simpa [In.byte?, quiet, Owes, modulo2, nOn, nOff, Out.event?, St.c4, hc] using since.succ
  | e7 =>
    obtain ⟨since, off, rfl, rfl⟩ := h
    have quiet := d.delivers.silent since (by omega) (by omega)
    refine ⟨[], ?_⟩
    rw [clk_e7 r k v _ (d.ack t)]
    simp [In.byte?, quiet, Owes, modulo2, nOn, nOff, Out.event?, St.c4]
  | e8 =>
    obtain ⟨since, on, rfl, rfl⟩ := h
    have quiet := d.delivers.silent since (by omega) (by omega)
    refine ⟨[], ?_⟩
    rw [clk_e8 r k v _ (d.ack t)]
    simp [In.byte?, quiet, Owes, modulo2, nOn, nOff, Out.event?, St.c4]
  | e9 =>
    obtain ⟨rfl, rfl⟩ := h
    refine ⟨[], ?_⟩
    rw [clk_e9]
    cases hr : (w t).ready with
    | true =>
      cases hs : isStatus (w t).code with
      | true =>
        have status : (w t).code7 = true := hs
        simpa [In.byte?, hr, Owes, d.delivers.stays t hr, modulo2, nOn, nOff, Out.event?, St.c4, hs, status]
          using d.delivers.since_one hr
      | false =>
        have data : (w t).code7 = false := hs
        simpa [In.byte?, hr, Owes, d.delivers.stays t hr, modulo2, nOn, nOff, Out.event?, St.c4, hs, data]
          using d.delivers.since_one hr
    | false => simp [In.byte?, hr, Owes, modulo2, nOn, nOff, Out.event?, St.c4]

/-- In every run the decoder's answers are the pulses of `modulo2` and the events it still owes. -/
theorem modulo2_simulates (d : Fed w) (r : BitVec 4) (t : ℕ) :
    ∃ p, Owes w t (modulo2.run (reset r) w t) (decoder.after .idle (log (fun t => (w t).byte?) t)) p ∧
      decoder.answers .idle (log (fun t => (w t).byte?) t) =
        log (fun t => (modulo2.wave (reset r) w t).event?) t ++ p :=
  decoder.simulated (R := fun t a p => Owes w t (modulo2.run (reset r) w t) a p)
    ⟨rfl, rfl⟩ (fun _ _ _ h => owes_step d h) t

/-- The state of the abstract decoder in cycle `t`. -/
def abs (w : ℕ → In) (t : ℕ) : Dec := decoder.after .idle (log (fun t => (w t).byte?) t)

/-- The decoder takes the byte of a pulse. -/
lemma abs_ready (h : (w t).ready = true) : abs w (t + 1) = decoder.next (abs w t) (w t).code := by
  rw [abs, log_succ, In.byte?, pulse_ready h, Transducer.after_append]
  rfl

/-- Without a pulse it stays as it is. -/
lemma abs_silent (h : (w t).ready = false) : abs w (t + 1) = abs w t := by
  rw [abs, log_succ, In.byte?, pulse_silent h, Transducer.after_append]
  rfl

/-- Either `modulo2` waits for a byte and owes nothing, or one has arrived in the last three cycles. -/
lemma Owes.waits_or_arrived {ep : Estado} {r : BitVec 4} {k v : BitVec 7} {a : Dec} {p : List NoteEvent}
    (h : Owes w t ⟨ep, r, k, v⟩ a p) :
    ((ep = .e0 ∨ ep = .e2 ∨ ep = .e4 ∨ ep = .e9) ∧ p = []) ∨ ∃ n, 1 ≤ n ∧ n ≤ 3 ∧ Arrived w n t := by
  cases ep with
  | e0 | e2 | e4 | e9 => exact .inl ⟨by simp, h.2⟩
  | e1 | e3 | e5 => exact .inr ⟨1, by omega, by omega, h.1⟩
  | e10 | e6 => exact .inr ⟨2, by omega, by omega, h.1⟩
  | e7 | e8 => exact .inr ⟨3, by omega, by omega, h.1⟩

/-- When a byte arrives, `modulo2` is in a state that waits for one, and owes nothing. -/
lemma Owes.waits (d : Fed w) (hr : (w t).ready = true) {ep : Estado} {r : BitVec 4} {k v : BitVec 7}
    {a : Dec} {p : List NoteEvent} (h : Owes w t ⟨ep, r, k, v⟩ a p) :
    (ep = .e0 ∨ ep = .e2 ∨ ep = .e4 ∨ ep = .e9) ∧ p = [] := by
  refine h.waits_or_arrived.resolve_right fun ⟨n, one, three, since⟩ => ?_
  exact absurd hr (by simp [d.delivers.silent since one three])

/-- When a byte arrives, `modulo2` has pulsed all the decoder's answers so far. -/
lemma owes_ready (d : Fed w) (r : BitVec 4) (hr : (w t).ready = true) :
    Owes w t (modulo2.run (reset r) w t) (abs w t) [] ∧
      decoder.answers .idle (log (fun t => (w t).byte?) t) =
        log (fun t => (modulo2.wave (reset r) w t).event?) t := by
  obtain ⟨p, owes, eq⟩ := modulo2_simulates d r t
  obtain ⟨-, rfl⟩ := Owes.waits d hr owes
  exact ⟨owes, eq.trans (List.append_nil _)⟩

/-- Every pulse of `modulo2` is the answer to the byte that arrived three cycles before. -/
theorem event_byte (d : Fed w) (r : BitVec 4) {e : NoteEvent}
    (h : (modulo2.wave (reset r) w t).event? = some e) :
    ∃ u, t = u + 3 ∧ (w u).ready = true ∧ decoder.answer (abs w u) (w u).code = some e ∧
      log (fun t => (w t).byte?) t = log (fun t => (w t).byte?) u ++ [(w u).code] := by
  obtain ⟨p, owes, eq⟩ := modulo2_simulates d r t
  have pulsing : Arrived w 3 t ∧ p = [e] := by
    rw [Machine.wave] at h
    generalize modulo2.run (reset r) w t = s at owes h
    obtain ⟨ep, r, k, v⟩ := s
    cases ep with
    | e7 => exact ⟨owes.1, owes.2.2.2.trans (congrArg (· :: []) (Option.some.inj h))⟩
    | e8 => exact ⟨owes.1, owes.2.2.2.trans (congrArg (· :: []) (Option.some.inj h))⟩
    | _ => exact absurd h (by simp [modulo2, Out.event?, nOn, nOff])
  obtain ⟨⟨u, rfl, hu⟩, rfl⟩ := pulsing
  obtain ⟨quiet1, quiet2, -⟩ := d.delivers.apart u hu
  have bytes : log (fun t => (w t).byte?) (u + 3) = log (fun t => (w t).byte?) u ++ [(w u).code] := by
    rw [log_succ, log_succ, log_succ, In.byte?, pulse_ready hu, In.byte?, pulse_silent quiet1, In.byte?,
      pulse_silent quiet2]
    simp
  -- nothing was owed at `u`, so the pulses since then are the answer to that byte
  obtain ⟨-, eq0⟩ := owes_ready d r hu
  obtain ⟨ys, pulses⟩ := log_prefix (fun t => (modulo2.wave (reset r) w t).event?)
    (show u ≤ u + 3 by omega)
  rw [bytes, Transducer.answers_append, eq0, ← pulses, List.append_assoc, List.append_cancel_left_eq,
    Transducer.answers_cons, Transducer.answers_nil, List.append_nil] at eq
  refine ⟨u, rfl, hu, ?_, bytes⟩
  change (decoder.answer (abs w u) (w u).code).toList = ys ++ [e] at eq
  cases ha : decoder.answer (abs w u) (w u).code with
  | none => rw [ha] at eq; simp at eq
  | some x =>
    rw [ha] at eq
    cases ys with
    | nil => rw [List.singleton_inj.mp eq]
    | cons y ys => simp at eq

/-- Events are owed for less than four cycles. -/
lemma Owes.settled {s : St} {a : Dec} {p : List NoteEvent} (h : Owes w t s a p)
    (quiet : ∀ u < t, t ≤ u + 3 → (w u).ready = false) : p = [] := by
  rcases Owes.waits_or_arrived h with ⟨-, nil⟩ | ⟨n, one, three, since⟩
  · exact nil
  · exact absurd since (not_since quiet one three)

/-- Four cycles after the last byte, `modulo2` has pulsed exactly the events that the decoder reads
from the bytes delivered. -/
theorem modulo2_decodes (d : Fed w) (r : BitVec 4)
    (quiet : ∀ u < t, t ≤ u + 3 → (w u).ready = false) :
    log (fun t => (modulo2.wave (reset r) w t).event?) t =
      decoder.answers .idle (log (fun t => (w t).byte?) t) := by
  obtain ⟨p, owes, eq⟩ := modulo2_simulates d r t
  rw [eq, owes.settled quiet, List.append_nil]

end Modulo2
