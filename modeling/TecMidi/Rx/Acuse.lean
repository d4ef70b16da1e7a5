import TecMidi.Rx.RealTime

/-!
# The acknowledgement of `modulo2`

`codificador` ties `ack` to `'1'`, but `UCmodulo2` waits for it in `e7` and `e8`. Here `ack` is any signal. An
event stays on the outputs until the cycle in which it is acknowledged, and a byte that arrives meanwhile is
lost. `Espera` is `Owes` with the events that wait, and `modulo2_acuse` what follows for a run: the events
acknowledged are those that the decoder reads from the bytes that are not lost.
-/

namespace Modulo2
open Sync UCmodulo2 Midi

/-- The event on the outputs of a state. -/
def St.avisa (s : St) : Option NoteEvent := (⟨nOn s.ep, nOff s.ep, s.key, s.vel⟩ : Out).event?

/-- The event acknowledged in a cycle, if any. -/
def acusado (s : St) (i : In) : Option NoteEvent := if i.ack = true then s.avisa else none

/-- The byte heard in a cycle, if any: one that arrives while no event waits. -/
def oido (s : St) (i : In) : Option Byte := if s.avisa = none then i.byte? else none

section Estados
variable {s : St} {i : In}

/-- An event waits in `e7` or in `e8`. -/
lemma avisa_cases {e : NoteEvent} (h : s.avisa = some e) : s.ep = .e7 ∨ s.ep = .e8 := by
  obtain ⟨ep, r, k, v⟩ := s
  cases ep with
  | e7 => exact .inl rfl
  | e8 => exact .inr rfl
  | _ => cases h

/-- It stays until it is acknowledged, and then the next status or data byte is awaited. -/
lemma clk_avisa {e : NoteEvent} (h : s.avisa = some e) :
    clk s i = if i.ack = true then { s with ep := .e9 } else s := by
  have ep := avisa_cases h
  obtain ⟨ep', r, k, v⟩ := s
  obtain ⟨ready, ack, code⟩ := i
  obtain rfl | rfl := ep <;> cases ack <;> rfl

/-- In the other states `ack` is not read. -/
lemma clk_ack (h : s.avisa = none) (b : Bool) : clk s { i with ack := b } = clk s i := by
  obtain ⟨ep, r, k, v⟩ := s
  cases ep with
  | e7 => cases h
  | e8 => cases h
  | _ => rfl

end Estados

variable {w : ℕ → In} {t : ℕ}

/-- In cycle `t` the state `s` stands for the decoder state `a`, with the events `p` still to be acknowledged. -/
def Espera (w : ℕ → In) (t : ℕ) (s : St) (a : Dec) (p : List NoteEvent) : Prop :=
  match s.avisa with
  | none => Owes w t s a p
  | some e => a = .running s.c4 ∧ p = [e]

/-- What is owed waits when its turn comes. -/
lemma Owes.espera {s : St} {a : Dec} {p : List NoteEvent} (h : Owes w t s a p) : Espera w t s a p := by
  obtain ⟨ep, r, k, v⟩ := s
  cases ep with
  | e7 | e8 => exact h.2.2
  | _ => exact h

/-- Every edge keeps the relation to the decoder, whatever `ack` is. -/
lemma espera_step (d : Delivers (fun t => (w t).ready) fun t => (w t).code) {s : St} {a : Dec}
    {p : List NoteEvent} (h : Espera w t s a p) :
    ∃ p', Espera w (t + 1) (clk s (w t)) (decoder.after a (oido s (w t)).toList) p' ∧
      p ++ decoder.answers a (oido s (w t)).toList = (acusado s (w t)).toList ++ p' := by
  cases waits : s.avisa with
  | none =>
    rw [Espera, waits] at h
    -- as if `ack` were tied to `'1'`
    have tied : Fed fun t => { w t with ack := true } := ⟨fun _ => rfl, d⟩
    obtain ⟨p', owes, eq⟩ := owes_step (w := fun t => { w t with ack := true }) tied h
    rw [clk_ack waits] at owes
    have silent : (modulo2.out s { w t with ack := true }).event? = none := waits
    rw [silent] at eq
    rw [oido, if_pos waits, acusado, waits, ite_self]
    exact ⟨p', owes.espera, eq⟩
  | some e =>
    rw [Espera, waits] at h
    obtain ⟨rfl, rfl⟩ := h
    rw [oido, if_neg (by simp [waits]), acusado, clk_avisa waits, waits]
    cases (w t).ack with
    | true => exact ⟨[], ⟨rfl, rfl⟩, rfl⟩
    | false =>
      refine ⟨[e], ?_, rfl⟩
      rw [if_neg (by simp), Espera, waits]
      exact ⟨rfl, rfl⟩

/-- In every run the decoder's answers are the events acknowledged and those still to be. -/
lemma modulo2_espera (d : Delivers (fun t => (w t).ready) fun t => (w t).code) (r : BitVec 4) (t : ℕ) :
    ∃ p, Espera w t (modulo2.run (reset r) w t)
        (decoder.after .idle (log (fun t => oido (modulo2.run (reset r) w t) (w t)) t)) p ∧
      decoder.answers .idle (log (fun t => oido (modulo2.run (reset r) w t) (w t)) t) =
        log (fun t => acusado (modulo2.run (reset r) w t) (w t)) t ++ p := by
  have init : Owes w 0 (reset r) .idle [] := ⟨rfl, rfl⟩
  apply decoder.simulated (R := fun t a p => Espera w t (modulo2.run (reset r) w t) a p) init.espera
  intro t a p h
  exact espera_step d h

/-- In every run the events acknowledged are, in order, those that the decoder reads from the bytes heard.
Four cycles after the last byte the only one that can be missing is the one that waits, which stays on the
outputs until it is acknowledged and not longer. -/
theorem modulo2_acuse (d : Delivers (fun t => (w t).ready) fun t => (w t).code) (r : BitVec 4) (t : ℕ) :
    log (fun t => acusado (modulo2.run (reset r) w t) (w t)) t <+:
        decoder.answers .idle (log (fun t => oido (modulo2.run (reset r) w t) (w t)) t) ∧
      ((∀ u < t, t ≤ u + 3 → (w u).ready = false) →
        decoder.answers .idle (log (fun t => oido (modulo2.run (reset r) w t) (w t)) t) =
          log (fun t => acusado (modulo2.run (reset r) w t) (w t)) t ++
            (modulo2.run (reset r) w t).avisa.toList) ∧
      ∀ e, (modulo2.run (reset r) w t).avisa = some e →
        (modulo2.run (reset r) w (t + 1)).avisa = if (w t).ack = true then none else some e := by
  obtain ⟨p, waits, eq⟩ := modulo2_espera d r t
  refine ⟨⟨p, eq.symm⟩, fun quiet => ?_, fun e some => ?_⟩
  · rw [eq]
    congr 1
    rw [Espera] at waits
    cases event : (modulo2.run (reset r) w t).avisa with
    | none =>
      rw [event] at waits
      exact waits.settled quiet
    | some e =>
      rw [event] at waits
      exact waits.2
  · rw [Machine.run_succ, show modulo2.next = clk from rfl, clk_avisa some]
    cases (w t).ack with
    | true => rfl
    | false => exact some

/-- `ack` every sixteen cycles. -/
def tardio (bs : List Byte) (t : ℕ) : In := { stream bs t with ack := decide (t % 16 = 0) }

/-- The second of three notes waits when the key of the third arrives, and this is lost. -/
theorem modulo2_acuse_tardio :
    log (fun t => oido (modulo2.run (reset 0#4) (tardio [0x90#8, 60#8, 100#8, 62#8, 100#8, 64#8, 100#8]) t)
        (tardio [0x90#8, 60#8, 100#8, 62#8, 100#8, 64#8, 100#8] t)) 44 =
      [0x90#8, 60#8, 100#8, 62#8, 100#8, 100#8] ∧
      log (fun t => acusado (modulo2.run (reset 0#4) (tardio [0x90#8, 60#8, 100#8, 62#8, 100#8, 64#8, 100#8]) t)
          (tardio [0x90#8, 60#8, 100#8, 62#8, 100#8, 64#8, 100#8] t)) 44 =
        [⟨true, 60#7, 100#7⟩, ⟨true, 62#7, 100#7⟩] := by
  have heard : log (fun t => oido (modulo2.run (reset 0#4)
      (tardio [0x90#8, 60#8, 100#8, 62#8, 100#8, 64#8, 100#8]) t)
      (tardio [0x90#8, 60#8, 100#8, 62#8, 100#8, 64#8, 100#8] t)) 44 =
      [0x90#8, 60#8, 100#8, 62#8, 100#8, 100#8] := by decide
  have taken := (modulo2_acuse (w := tardio [0x90#8, 60#8, 100#8, 62#8, 100#8, 64#8, 100#8])
    (stream_fed _).delivers 0#4 44).2.1 (by decide)
  rw [heard, show (modulo2.run (reset 0#4) (tardio [0x90#8, 60#8, 100#8, 62#8, 100#8, 64#8, 100#8]) 44).avisa =
    none by decide, Option.toList_none, List.append_nil] at taken
  exact ⟨heard, taken.symm⟩

end Modulo2
