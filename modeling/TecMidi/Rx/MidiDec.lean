import TecMidi.Midi.Message
import TecMidi.Sync.Delivery

/-!
# `midi_dec`: the other note decoder

The entity `midi_dec`, process by process, and its relation `Owes` to the abstract decoder, in the
manner of `Modulo2.lean` and `Decoding.lean`. `midi_dec` looks at a byte before it takes it as a
status, has no state for the test, and keeps only the bit that tells Note On from Note Off.
-/

namespace MidiDec
open Sync Midi

/-- The states of the control unit. -/
inductive Estado where
  | idle | ldcmd | waitkey | ldkey | waitvel | ldvel | kon | koff | waitready
deriving DecidableEq, Repr

/-- The registers. -/
structure St where
  estP : Estado
  onoff : Bool
  rkey : BitVec 7
  rvel : BitVec 7
deriving DecidableEq, Repr

/-- The byte that `uart_rx` offers. -/
structure In where
  dato : BitVec 8
  ready : Bool
deriving DecidableEq, Repr

/-- The note and its pulses. -/
structure Out where
  key : BitVec 7
  vel : BitVec 7
  keyon : Bool
  keyoff : Bool
deriving DecidableEq, Repr

/-- The byte is a note status. -/
def In.note (i : In) : Bool := i.dato.extractLsb' 5 3 = 0b100#3

/-- The byte is a data byte. -/
def In.data (i : In) : Bool := i.dato.getLsbD 7 = false

/-- The next state: a status, a key and a velocity are awaited and loaded in turn, and the note is pulsed. -/
def estS (estP : Estado) (ready note onoff data : Bool) : Estado :=
  match estP with
  | .idle => if ready = true ∧ note = true then .ldcmd else .idle
  | .ldcmd => .waitkey
  | .waitkey => if ready = false then .waitkey else .ldkey
  | .ldkey => .waitvel
  | .waitvel => if ready = false then .waitvel else .ldvel
  | .ldvel => if onoff = true then .kon else .koff
  | .kon => .waitready
  | .koff => .waitready
  | .waitready =>
    if ready = false then .waitready
    else if data = true then .ldkey
    else if note = true then .ldcmd
    else .idle

/-- The state forced by the reset. -/
def reset : St where
  estP := .idle
  onoff := false
  rkey := 0#7
  rvel := 0#7

/-- A rising edge of the clock. -/
def clk (s : St) (i : In) : St where
  estP := estS s.estP i.ready i.note s.onoff i.data
  onoff := if s.estP = .ldcmd then i.dato.getLsbD 4 else s.onoff
  rkey := if s.estP = .ldkey then i.dato.extractLsb' 0 7 else s.rkey
  rvel := if s.estP = .ldvel then i.dato.extractLsb' 0 7 else s.rvel

/-- `midi_dec` on its clock. -/
def midiDec : Machine St In Out where
  next := clk
  out s _ := ⟨s.rkey, s.rvel, s.estP = .kon, s.estP = .koff⟩

/-- The byte that arrives in a cycle, if any. -/
def In.byte? (i : In) : Option Byte := pulse i.ready i.dato

/-- The event pulsed in a cycle, if any. -/
def Out.event? (o : Out) : Option NoteEvent :=
  if o.keyon = true then some ⟨true, o.key, o.vel⟩
  else if o.keyoff = true then some ⟨false, o.key, o.vel⟩
  else none

/-- A pulse is on one of the two outputs, and lasts one cycle. -/
lemma event?_once (s : St) (i j : In) :
    ((midiDec.out s i).keyon = false ∨ (midiDec.out s i).keyoff = false) ∧
      ((midiDec.out s i).event? ≠ none → (midiDec.out (clk s i) j).event? = none) := by
  obtain ⟨estP, r, k, v⟩ := s
  cases estP with
  | kon => exact ⟨.inr rfl, fun _ => rfl⟩
  | koff => exact ⟨.inl rfl, fun _ => rfl⟩
  | _ => exact ⟨.inl rfl, fun h => absurd rfl h⟩

/-! ### Decoding -/

/-- A byte arrived `n` cycles before cycle `t`. -/
abbrev Arrived (w : ℕ → In) (n t : ℕ) : Prop := Since (fun t => (w t).ready) n t

/-- In cycle `t` the state `s` stands for the decoder state `a`, with the events `p` still to come. -/
def Owes (w : ℕ → In) (t : ℕ) (s : St) (a : Dec) (p : List NoteEvent) : Prop :=
  match s.estP with
  | .idle => a = .idle ∧ p = []
  | .ldcmd => Arrived w 1 t ∧ a = .key (isNoteOn (w t).dato) ∧ p = []
  | .waitkey => a = .key s.onoff ∧ p = []
  | .ldkey => Arrived w 1 t ∧ a = .vel s.onoff (dataBits (w t).dato) ∧ p = []
  | .waitvel => a = .vel s.onoff s.rkey ∧ p = []
  | .ldvel => Arrived w 1 t ∧ a = .running s.onoff ∧ p = [⟨s.onoff, s.rkey, dataBits (w t).dato⟩]
  | .kon => Arrived w 2 t ∧ s.onoff = true ∧ a = .running s.onoff ∧ p = [⟨true, s.rkey, s.rvel⟩]
  | .koff => Arrived w 2 t ∧ s.onoff = false ∧ a = .running s.onoff ∧ p = [⟨false, s.rkey, s.rvel⟩]
  | .waitready => a = .running s.onoff ∧ p = []

/-- The bytes are delivered by pulses. -/
abbrev Fed (w : ℕ → In) : Prop := Delivers (fun t => (w t).ready) (fun t => (w t).dato)

variable {w : ℕ → In} {t : ℕ}

/-- Every edge keeps the relation to the decoder. -/
lemma owes_step (d : Fed w) {s : St} {a : Dec} {p : List NoteEvent} (h : Owes w t s a p) :
    ∃ p', Owes w (t + 1) (clk s (w t)) (decoder.after a (w t).byte?.toList) p' ∧
      p ++ decoder.answers a (w t).byte?.toList = (midiDec.out s (w t)).event?.toList ++ p' := by
  obtain ⟨estP, r, k, v⟩ := s
  have note : (w t).note = isNote (w t).dato := (beq_eq_decide _ _).symm
  have data : (w t).data = !isStatus (w t).dato := by
    cases hs : isStatus (w t).dato with
    | true => exact decide_eq_false (by rw [isStatus] at hs; simp [hs])
    | false => exact decide_eq_true hs
  cases estP with
  | idle =>
    obtain ⟨rfl, rfl⟩ := h
    refine ⟨[], ?_⟩
    cases hr : (w t).ready with
    | true =>
      cases hn : isNote (w t).dato with
      | true => simpa [In.byte?, Owes, clk, estS, hr, note, hn, Dec.status, d.stays t hr,
          midiDec, Out.event?] using d.since_one hr
      | false => simp [In.byte?, hr, Owes, clk, estS, note, hn, Dec.status, midiDec, Out.event?]
    | false => simp [In.byte?, Owes, clk, estS, hr, midiDec, Out.event?]
  | ldcmd =>
    obtain ⟨since, rfl, rfl⟩ := h
    have quiet := d.silent since (by omega) (by omega)
    exact ⟨[], by simp [In.byte?, quiet, Owes, clk, estS, isNoteOn, midiDec, Out.event?]⟩
  | waitkey =>
    obtain ⟨rfl, rfl⟩ := h
    refine ⟨[], ?_⟩
    cases hr : (w t).ready with
    | true => simpa [In.byte?, Owes, clk, estS, hr, d.stays t hr, midiDec, Out.event?]
        using d.since_one hr
    | false => simp [In.byte?, Owes, clk, estS, hr, midiDec, Out.event?]
  | ldkey =>
    obtain ⟨since, rfl, rfl⟩ := h
    have quiet := d.silent since (by omega) (by omega)
    exact ⟨[], by simp [In.byte?, quiet, Owes, clk, estS, dataBits, midiDec, Out.event?]⟩
  | waitvel =>
    obtain ⟨rfl, rfl⟩ := h
    cases hr : (w t).ready with
    | true =>
      refine ⟨[⟨r, k, dataBits (w t).dato⟩], ?_⟩
      simpa [In.byte?, Owes, clk, estS, hr, d.stays t hr, midiDec, Out.event?]
        using d.since_one hr
    | false => exact ⟨[], by simp [In.byte?, Owes, clk, estS, hr, midiDec, Out.event?]⟩
  | ldvel =>
    obtain ⟨since, rfl, rfl⟩ := h
    have quiet := d.silent since (by omega) (by omega)
    refine ⟨[⟨r, k, dataBits (w t).dato⟩], ?_⟩
    cases r <;>
      simpa [In.byte?, quiet, Owes, clk, estS, dataBits, midiDec, Out.event?] using since.succ
  | kon =>
    obtain ⟨since, rfl, rfl, rfl⟩ := h
    have quiet := d.silent since (by omega) (by omega)
    exact ⟨[], by simp [In.byte?, quiet, Owes, clk, estS, midiDec, Out.event?]⟩
  | koff =>
    obtain ⟨since, rfl, rfl, rfl⟩ := h
    have quiet := d.silent since (by omega) (by omega)
    exact ⟨[], by simp [In.byte?, quiet, Owes, clk, estS, midiDec, Out.event?]⟩
  | waitready =>
    obtain ⟨rfl, rfl⟩ := h
    refine ⟨[], ?_⟩
    cases hr : (w t).ready with
    | true =>
      cases hs : isStatus (w t).dato with
      | true =>
        cases hn : isNote (w t).dato with
        | true => simpa [In.byte?, Owes, clk, estS, hr, data, hs, note, hn, Dec.status,
            d.stays t hr, midiDec, Out.event?] using d.since_one hr
        | false => simp [In.byte?, Owes, clk, estS, hr, data, hs, note, hn, Dec.status,
            midiDec, Out.event?]
      | false => simpa [In.byte?, Owes, clk, estS, hr, data, hs, d.stays t hr, midiDec,
          Out.event?] using d.since_one hr
    | false => simp [In.byte?, Owes, clk, estS, hr, midiDec, Out.event?]

/-- Events are owed for less than four cycles. -/
lemma Owes.settled {s : St} {a : Dec} {p : List NoteEvent} (h : Owes w t s a p)
    (quiet : ∀ u < t, t ≤ u + 3 → (w u).ready = false) : p = [] := by
  have never {n : ℕ} (one : 1 ≤ n) (three : n ≤ 3) : ¬ Arrived w n t := not_since quiet one three
  obtain ⟨estP, r, k, v⟩ := s
  cases estP with
  | ldvel => exact absurd h.1 (never (by omega) (by omega))
  | kon => exact absurd h.1 (never (by omega) (by omega))
  | koff => exact absurd h.1 (never (by omega) (by omega))
  | idle | waitkey | waitvel | waitready => exact h.2
  | ldcmd | ldkey => exact h.2.2

/-- Four cycles after the last byte, `midi_dec` has pulsed exactly the events that the decoder reads
from the bytes delivered. -/
theorem midiDec_decodes (d : Fed w) (quiet : ∀ u < t, t ≤ u + 3 → (w u).ready = false) :
    log (fun t => (midiDec.wave reset w t).event?) t =
      decoder.answers .idle (log (fun t => (w t).byte?) t) := by
  obtain ⟨p, owes, eq⟩ := decoder.simulated (R := fun t a p => Owes w t (midiDec.run reset w t) a p)
    ⟨rfl, rfl⟩ (fun _ _ _ h => owes_step d h) t
  rw [eq, owes.settled quiet, List.append_nil]
  rfl

end MidiDec
