import Mathlib.Data.List.Induction
import TecMidi.Rx.Decoding

/-!
# Status bytes in the middle of a message

In `e9` the control unit `UCmodulo2` looks at bit 7 of a byte before it takes it as a key; in `e2` and
`e4` it does not, so that a status byte that arrives there is stored as a key or a velocity. `Resyncs`
is what a decoder that looks at bit 7 everywhere would satisfy, and `resyncs_iff` says on which streams
`modulo2` does: on those in which no status byte arrives while the stream awaits data (`Whole`).

`Awaits` is a condition on the bytes alone: the last status byte is a note status, and none or an odd
number of data bytes has come since. `Stands` connects it with the state of the decoder, as long as the
stream has been whole.
-/

namespace Modulo2
open Sync UCmodulo2 Midi

/-- The last status byte of a stream and the number of data bytes since. -/
def sinceStatus (bs : List Byte) : Option Byte × ℕ :=
  bs.foldl (fun q b => if isStatus b = true then (some b, 0) else (q.1, q.2 + 1)) (none, 0)

/-- The stream stops before the key or the velocity of a note. -/
def Awaits (bs : List Byte) : Prop :=
  ∃ s, (sinceStatus bs).1 = some s ∧ isNote s = true ∧
    ((sinceStatus bs).2 = 0 ∨ (sinceStatus bs).2 % 2 = 1)

/-- The bytes delivered before cycle `t`. -/
abbrev received (w : ℕ → In) (t : ℕ) : List Byte := log (fun t => (w t).byte?) t

/-- No status byte arrives while the stream awaits data. -/
def Whole (w : ℕ → In) : Prop :=
  ∀ t, (w t).ready = true → Awaits (received w t) → isStatus (w t).code = false

/-- In cycle `t` a byte is stored as a key or as a velocity. -/
def Stores (r : BitVec 4) (w : ℕ → In) (t : ℕ) : Prop :=
  ldKey (modulo2.run (reset r) w t).ep = true ∨ ldVel (modulo2.run (reset r) w t).ep = true

/-- Resynchronisation on status bytes. -/
structure Resyncs (r : BitVec 4) (w : ℕ → In) : Prop where
  /-- An event is built from a note status and two later data bytes, without a status byte (other
  than System Real-Time) between these. -/
  built : ∀ t e, (modulo2.wave (reset r) w t).event? = some e →
    ∃ pre s mid k gap v, received w t = pre ++ s :: (mid ++ k :: (gap ++ [v])) ∧
      isNote s = true ∧ isNoteOn s = e.on ∧ isStatus k = false ∧ dataBits k = e.key ∧
      isStatus v = false ∧ dataBits v = e.vel ∧ ∀ b ∈ gap, isStatus b = true → isRealTime b = true
  /-- A status byte is never stored as a key or as a velocity. -/
  stored : ∀ t, Stores r w t → (w t).code7 = false
  /-- A complete note message is decoded as its event, whatever was received before it. -/
  complete : ∀ t n s k v, (w t).ready = true → (w t).code = s → isNote s = true →
    isStatus k = false → isStatus v = false →
    received w (t + n) = received w t ++ [s, k, v] →
    (∀ u < t + n, t + n ≤ u + 3 → (w u).ready = false) →
    log (fun t => (modulo2.wave (reset r) w t).event?) (t + n) =
      log (fun t => (modulo2.wave (reset r) w t).event?) t ++ [⟨isNoteOn s, dataBits k, dataBits v⟩]

/-- The decoder is in the middle of a message. -/
def Awaiting : Dec → Prop
  | .key _ => True
  | .vel _ _ => True
  | _ => False

/-- The state of the decoder stands for the bytes received: which note status it follows, and which
data bytes have come since. -/
def Stands (bs : List Byte) : Dec → Prop
  | .idle => ∀ s, (sinceStatus bs).1 = some s → isNote s = false
  | .key on => ∃ pre s, bs = pre ++ s :: [] ∧ isNote s = true ∧ isNoteOn s = on
  | .vel on key => ∃ pre s mid k, bs = pre ++ s :: (mid ++ [k]) ∧ isNote s = true ∧
      isNoteOn s = on ∧ (∀ b ∈ mid ++ [k], isStatus b = false) ∧ mid.length % 2 = 0 ∧ dataBits k = key
  | .running on => ∃ pre s mid, bs = pre ++ s :: mid ∧ isNote s = true ∧ isNoteOn s = on ∧
      (∀ b ∈ mid, isStatus b = false) ∧ mid.length % 2 = 0 ∧ 0 < mid.length

/-- A status byte starts the count again, and any other byte is counted. -/
lemma sinceStatus_append (bs : List Byte) (b : Byte) :
    sinceStatus (bs ++ [b]) =
      if isStatus b = true then (some b, 0) else ((sinceStatus bs).1, (sinceStatus bs).2 + 1) := by
  rw [sinceStatus, List.foldl_append]
  rfl

/-- Data bytes are counted from the status byte before them. -/
lemma sinceStatus_split (pre : List Byte) {s : Byte} (status : isStatus s = true) (ds : List Byte)
    (data : ∀ b ∈ ds, isStatus b = false) : sinceStatus (pre ++ s :: ds) = (some s, ds.length) := by
  induction ds using List.reverseRecOn with
  | nil => rw [sinceStatus_append, if_pos status, List.length_nil]
  | append_singleton ds d ih =>
    have step := ih fun b hb => data b (List.mem_append_left [d] hb)
    have hd : isStatus d = false := data d (by simp)
    rw [show pre ++ s :: (ds ++ [d]) = (pre ++ s :: ds) ++ [d] by simp, sinceStatus_append, step,
      if_neg (by simp [hd]), List.length_append, List.length_singleton]

/-- The decoder is in the middle of a message exactly when the stream awaits data. -/
lemma Stands.awaits {bs : List Byte} {a : Dec} (h : Stands bs a) : Awaiting a ↔ Awaits bs := by
  cases a with
  | idle =>
    refine ⟨False.elim, fun ⟨s, hs, note, _⟩ => ?_⟩
    rw [h s hs] at note
    cases note
  | key on =>
    obtain ⟨pre, s, rfl, note, -⟩ := h
    have since := sinceStatus_split pre (isStatus_of_isNote note) [] nofun
    exact ⟨fun _ => ⟨s, by rw [since], note, .inl (by rw [since]; rfl)⟩, fun _ => trivial⟩
  | vel on key =>
    obtain ⟨pre, s, mid, k, rfl, note, -, data, even, -⟩ := h
    have since := sinceStatus_split pre (isStatus_of_isNote note) _ data
    refine ⟨fun _ => ⟨s, by rw [since], note, .inr ?_⟩, fun _ => trivial⟩
    rw [since, List.length_append, List.length_singleton]
    omega
  | running on =>
    obtain ⟨pre, s, mid, rfl, note, -, data, even, pos⟩ := h
    have since := sinceStatus_split pre (isStatus_of_isNote note) _ data
    refine ⟨False.elim, fun ⟨_, _, _, parity⟩ => ?_⟩
    rw [since] at parity
    change mid.length = 0 ∨ mid.length % 2 = 1 at parity
    omega

/-- A status byte puts the decoder where the stream says. -/
lemma stands_status (bs : List Byte) {b : Byte} (hb : isStatus b = true) :
    Stands (bs ++ [b]) (.status b) := by
  cases note : isNote b with
  | true =>
    rw [Dec.status, note, if_pos rfl]
    exact ⟨bs, b, rfl, note, rfl⟩
  | false =>
    rw [Dec.status, note, if_neg (by simp)]
    intro s hs
    rw [sinceStatus_append, if_pos hb] at hs
    rwa [← Option.some.inj hs]

/-- One byte that does not interrupt a message. -/
lemma Stands.next {bs : List Byte} {a : Dec} {b : Byte} (h : Stands bs a)
    (whole : Awaiting a → isStatus b = false) : Stands (bs ++ [b]) (decoder.next a b) := by
  cases a with
  | idle =>
    cases hb : isStatus b with
    | true => exact stands_status bs hb
    | false =>
      have note : isNote b = false := by
        cases hn : isNote b with
        | true => rw [isStatus_of_isNote hn] at hb; cases hb
        | false => rfl
      rw [decoder_next_idle, Dec.status, note]
      intro s hs
      rw [sinceStatus_append, if_neg (by simp [hb])] at hs
      exact h s hs
  | key on =>
    obtain ⟨pre, s, rfl, note, kind⟩ := h
    exact ⟨pre, s, [], b, by simp, note, kind, by simpa using whole trivial, rfl, rfl⟩
  | vel on key =>
    obtain ⟨pre, s, mid, k, rfl, note, kind, data, even, -⟩ := h
    refine ⟨pre, s, mid ++ [k, b], by simp, note, kind, ?_, ?_, by simp⟩
    · intro x hx
      rcases List.mem_append.mp (show x ∈ (mid ++ [k]) ++ [b] by simpa using hx) with hx | hx
      · exact data x hx
      · rw [List.mem_singleton.mp hx]
        exact whole trivial
    · rw [List.length_append]
      change (mid.length + 2) % 2 = 0
      omega
  | running on =>
    obtain ⟨pre, s, mid, rfl, note, kind, data, even, pos⟩ := h
    cases hb : isStatus b with
    | true =>
      rw [decoder_next_running, hb]
      exact stands_status _ hb
    | false =>
      rw [decoder_next_running, hb]
      refine ⟨pre, s, mid, b, by simp, note, kind, fun x hx => ?_, even, rfl⟩
      rcases List.mem_append.mp hx with hx | hx
      · exact data x hx
      · rwa [List.mem_singleton.mp hx]

section Stream

variable {w : ℕ → In} {r : BitVec 4} {t : ℕ}

/-- No status byte has arrived in the middle of a message before cycle `t`. -/
def Unbroken (w : ℕ → In) (t : ℕ) : Prop :=
  ∀ u < t, (w u).ready = true → Awaiting (abs w u) → isStatus (w u).code = false

/-- As long as no status byte interrupts a message, the decoder is where the stream says. -/
lemma stands_run (h : Unbroken w t) : Stands (received w t) (abs w t) := by
  induction t with
  | zero => exact nofun
  | succ t ih =>
    have stands := ih fun u lt => h u (Nat.lt_succ_of_lt lt)
    cases hr : (w t).ready with
    | true =>
      rw [abs_ready hr, received, log_succ, In.byte?, pulse_ready hr]
      exact stands.next (h t (Nat.lt_succ_self t) hr)
    | false =>
      rw [abs_silent hr, received, log_succ, In.byte?, pulse_silent hr, Option.toList_none, List.append_nil]
      exact stands

/-- A stream is whole exactly when it never interrupts the decoder. -/
lemma whole_iff : Whole w ↔ ∀ t, Unbroken w t := by
  constructor
  · intro whole t
    induction t with
    | zero => exact fun u lt => absurd lt (Nat.not_lt_zero u)
    | succ t ih =>
      intro u lt hr aw
      rcases Nat.lt_succ_iff_lt_or_eq.mp lt with lt | rfl
      · exact ih u lt hr aw
      · exact whole u hr ((stands_run ih).awaits.mp aw)
  · intro h t hr aw
    exact h (t + 1) t (Nat.lt_succ_self t) hr ((stands_run (h t)).awaits.mpr aw)

/-- A byte that arrives in the middle of a message is stored in the next cycle. -/
lemma stores_of_awaiting (d : Fed w) (hr : (w t).ready = true) (h : Awaiting (abs w t)) :
    Stores r w (t + 1) := by
  obtain ⟨owes, -⟩ := owes_ready d r hr
  have succ : modulo2.run (reset r) w (t + 1) = clk (modulo2.run (reset r) w t) (w t) := rfl
  generalize modulo2.run (reset r) w t = s at owes succ
  generalize abs w t = a at owes h
  rw [Stores, succ]
  obtain ⟨ep, r, k, v⟩ := s
  obtain ⟨rfl | rfl | rfl | rfl, -⟩ := owes.waits d hr
  · rw [owes.1] at h
    cases h
  · exact .inl (by rw [clk_e2, hr]; rfl)
  · exact .inr (by rw [clk_e4, hr]; rfl)
  · rw [owes.1] at h
    cases h

/-- A byte that is stored arrived in the cycle before; if the decoder did not await it, it is data. -/
lemma stores_byte (d : Fed w) (h : Stores r w t) :
    ∃ u, t = u + 1 ∧ (w u).ready = true ∧ (w t).code = (w u).code ∧
      (Awaiting (abs w u) ∨ isStatus (w u).code = false) := by
  obtain ⟨p, owes, -⟩ := modulo2_simulates d r t
  have since : Arrived w 1 t := by
    rw [Stores] at h
    generalize modulo2.run (reset r) w t = s at owes h
    obtain ⟨ep, r, k, v⟩ := s
    cases ep with
    | e3 => exact owes.1
    | e5 => exact owes.1
    | _ => simp [ldKey, ldVel] at h
  obtain ⟨u, rfl, hr⟩ := since
  refine ⟨u, rfl, hr, d.delivers.stays u hr, ?_⟩
  obtain ⟨owes0, -⟩ := owes_ready d r hr
  have succ : modulo2.run (reset r) w (u + 1) = clk (modulo2.run (reset r) w u) (w u) := rfl
  rw [Stores, succ] at h
  generalize modulo2.run (reset r) w u = s at owes0 h
  obtain ⟨ep, r, k, v⟩ := s
  obtain ⟨rfl | rfl | rfl | rfl, -⟩ := owes0.waits d hr
  · simp [clk_e0, hr, ldKey, ldVel] at h
  · rw [owes0.1]
    exact .inl trivial
  · rw [owes0.1]
    exact .inl trivial
  · refine .inr ?_
    cases hs : isStatus (w u).code with
    | false => rfl
    | true =>
      have status : (w u).code7 = true := hs
      simp [clk_e9, hr, status, ldKey, ldVel] at h

/-- In a whole stream a pulse is built from a note status and the last two data bytes. -/
lemma built_of_whole (d : Fed w) (whole : Whole w) {e : NoteEvent}
    (h : (modulo2.wave (reset r) w t).event? = some e) :
    ∃ pre s mid k v, received w t = pre ++ s :: (mid ++ k :: ([] ++ [v])) ∧ isNote s = true ∧
      isNoteOn s = e.on ∧ isStatus k = false ∧ dataBits k = e.key ∧ isStatus v = false ∧
      dataBits v = e.vel := by
  obtain ⟨u, rfl, hr, answer, bytes⟩ := event_byte d r h
  have stands := stands_run (whole_iff.mp whole u)
  have data := whole u hr
  generalize abs w u = a at answer stands
  cases a with
  | vel on key =>
    obtain rfl := Option.some.inj answer
    have hv := data (stands.awaits.mp trivial)
    obtain ⟨pre, s, mid, k, split, note, kind, hdata, -, hk⟩ := stands
    refine ⟨pre, s, mid, k, (w u).code, ?_, note, kind, hdata k (by simp), hk, hv, rfl⟩
    rw [received, bytes]
    change received w u ++ _ = _
    rw [split]
    simp
  | idle | key | running => cases answer

/-- In a whole stream a note status starts a new message. -/
lemma complete_of_whole (d : Fed w) (whole : Whole w) {n : ℕ} {s k v : Byte}
    (hr : (w t).ready = true) (hs : (w t).code = s) (note : isNote s = true)
    (bytes : received w (t + n) = received w t ++ [s, k, v])
    (quiet : ∀ u < t + n, t + n ≤ u + 3 → (w u).ready = false) :
    log (fun t => (modulo2.wave (reset r) w t).event?) (t + n) =
      log (fun t => (modulo2.wave (reset r) w t).event?) t ++ [⟨isNoteOn s, dataBits k, dataBits v⟩] := by
  have stands := stands_run (whole_iff.mp whole t)
  have status := isStatus_of_isNote note
  have free : ¬ Awaiting (abs w t) := fun aw => by
    have data := whole t hr (stands.awaits.mp aw)
    rw [hs, status] at data
    cases data
  have start : decoder.next (abs w t) s = .key (isNoteOn s) ∧ decoder.answer (abs w t) s = none := by
    generalize abs w t = a at free
    cases a with
    | idle => simp [Dec.status, note]
    | running on => simp [Dec.status, note, status]
    | key | vel => exact absurd trivial free
  rw [modulo2_decodes d r quiet, show log (fun t => (w t).byte?) (t + n) = _ from bytes,
    Transducer.answers_append, ← (owes_ready d r hr).2]
  change _ ++ decoder.answers (abs w t) [s, k, v] = _
  simp [start.1, start.2]

end Stream

/-- `modulo2` resynchronises on the status bytes of a stream if and only if none of them arrives while
a key or a velocity is awaited. -/
theorem resyncs_iff {w : ℕ → In} (d : Fed w) (r : BitVec 4) : Resyncs r w ↔ Whole w := by
  constructor
  · intro h
    refine whole_iff.mpr fun t u _ hr aw => ?_
    rw [← d.delivers.stays _ hr]
    exact h.stored (u + 1) (stores_of_awaiting d hr aw)
  · intro whole
    refine ⟨fun t e h => ?_, fun t h => ?_, ?_⟩
    · obtain ⟨pre, s, mid, k, v, bytes, note, kind, hk, key, hv, vel⟩ := built_of_whole d whole h
      exact ⟨pre, s, mid, k, [], v, bytes, note, kind, hk, key, hv, vel, nofun⟩
    · obtain ⟨u, rfl, hr, same, awaited | data⟩ := stores_byte d h
      · rw [In.code7, same]
        exact whole_iff.mp whole (u + 1) u (Nat.lt_succ_self u) hr awaited
      · rw [In.code7, same]
        exact data
    · exact fun t n s k v hr hs note _ _ bytes quiet =>
        complete_of_whole d whole hr hs note bytes quiet

/-- A stream of bytes six cycles apart, each one kept until the next. -/
def stream (bs : List Byte) (t : ℕ) : In where
  ready := t % 6 = 0 ∧ t / 6 < bs.length
  ack := true
  code := bs.getD (t / 6) (bs.getLastD 0#8)

/-- A byte every four cycles is what `modulo2` needs. -/
lemma stream_fed (bs : List Byte) : Fed (stream bs) where
  ack _ := rfl
  delivers := by
    constructor
    · intro t h
      have h6 : t % 6 = 0 := (of_decide_eq_true h).1
      refine ⟨?_, ?_, ?_⟩ <;> exact decide_eq_false fun h => by omega
    · intro t h
      have h6 : t % 6 = 0 := (of_decide_eq_true h).1
      change bs.getD ((t + 1) / 6) _ = bs.getD (t / 6) _
      rw [show (t + 1) / 6 = t / 6 by omega]

/-- A note with its status byte, and one with running status. -/
theorem resyncs_iff_example :
    Resyncs 0#4 (stream [0x90#8, 60#8, 100#8, 60#8, 0#8]) ↔
      Whole (stream [0x90#8, 60#8, 100#8, 60#8, 0#8]) :=
  resyncs_iff (stream_fed _) 0#4

/-- A note status that follows another one is stored as a key, and the note it belongs to is lost. -/
theorem not_resyncs : ¬ Resyncs 0#4 (stream [0x90#8, 0x90#8, 62#8, 100#8]) := fun h =>
  absurd (h.stored 7 (.inl (by decide))) (by decide)

end Modulo2
