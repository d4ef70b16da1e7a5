import TecMidi.Sync.Machine

/-!
# MIDI notes

What the two receivers of the repository are for: a stream of MIDI bytes carries messages, and the
note messages among them are events. `Message` is a complete message as a keyboard sends it (a note
with its status byte or with running status, or any other message up to `0xF7`), `Message.bytes` its
bytes, `Message.event?` the event it reports.

`decoder` reads a byte stream of any kind. It is the common abstract behaviour of `modulo2` and
`midi_dec`: a status byte that arrives between messages is inspected, a byte that arrives while a key
or a velocity is awaited is taken as such. `decoder_messages` is its correctness on complete messages.
-/

namespace Midi
open Sync

/-- A byte of the MIDI line. -/
abbrev Byte := BitVec 8

/-- A note pressed (`on`) or released, with its key number and its velocity. -/
structure NoteEvent where
  on : Bool
  key : BitVec 7
  vel : BitVec 7
deriving DecidableEq, Repr

/-- Status bytes have bit 7 set. -/
def isStatus (b : Byte) : Bool := b.getLsbD 7

/-- The status bytes of note messages, `0x8n` and `0x9n`. -/
def isNote (b : Byte) : Bool := b.extractLsb' 5 3 == 0b100#3

/-- Bit 4 of a note status tells Note On from Note Off. -/
def isNoteOn (b : Byte) : Bool := b.getLsbD 4

/-- The System Real-Time bytes, `0xF8` to `0xFF`. -/
def isRealTime (b : Byte) : Bool := b.extractLsb' 3 5 == 0b11111#5

/-- The seven data bits of a byte. -/
def dataBits (b : Byte) : BitVec 7 := b.extractLsb' 0 7

/-- The byte that carries seven data bits. -/
def dataByte (d : BitVec 7) : Byte := 0#1 ++ d

/-- The status byte of a note message. -/
def noteStatus (on : Bool) (channel : BitVec 4) : Byte := 0b100#3 ++ (BitVec.ofBool on ++ channel)

/-- A data byte has bit 7 at 0. -/
@[simp] lemma isStatus_dataByte (d : BitVec 7) : isStatus (dataByte d) = false := by
  revert d; decide

/-- A data byte is no note status. -/
@[simp] lemma isNote_dataByte (d : BitVec 7) : isNote (dataByte d) = false := by
  revert d; decide

/-- A data byte carries its seven bits. -/
@[simp] lemma dataBits_dataByte (d : BitVec 7) : dataBits (dataByte d) = d := by
  revert d; decide

/-- The status byte of a note is recognised on every channel. -/
@[simp] lemma isNote_noteStatus (on : Bool) (channel : BitVec 4) :
    isNote (noteStatus on channel) = true := by
  revert on channel; decide

/-- The status byte of a note tells Note On from Note Off on every channel. -/
@[simp] lemma isNoteOn_noteStatus (on : Bool) (channel : BitVec 4) :
    isNoteOn (noteStatus on channel) = on := by
  revert on channel; decide

/-- A note status is a status byte. -/
lemma isStatus_of_isNote {b : Byte} (note : isNote b = true) : isStatus b = true := by
  revert b; decide

/-- A System Real-Time byte is a status byte that is no note status. -/
lemma isRealTime_status {b : Byte} (rt : isRealTime b = true) :
    isStatus b = true ∧ isNote b = false := by
  revert b; decide

/-- What the decoder waits for. -/
inductive Dec where
  /-- A status byte. -/
  | idle
  /-- The key of a note. -/
  | key (on : Bool)
  /-- The velocity of a note. -/
  | vel (on : Bool) (key : BitVec 7)
  /-- A status byte, or the key of a further note of the same status. -/
  | running (on : Bool)
deriving DecidableEq, Repr

/-- The state a status byte leads to. -/
def Dec.status (b : Byte) : Dec := if isNote b then .key (isNoteOn b) else .idle

/-- The byte-level behaviour shared by the two receivers. -/
def decoder : Transducer Dec Byte NoteEvent where
  next
    | .idle, b => .status b
    | .key on, b => .vel on (dataBits b)
    | .vel on _, _ => .running on
    | .running on, b => if isStatus b then .status b else .vel on (dataBits b)
  answer
    | .vel on k, b => some ⟨on, k, dataBits b⟩
    | _, _ => none

/-- In `idle` the decoder takes any byte for a status. -/
@[simp] lemma decoder_next_idle (b : Byte) : decoder.next .idle b = .status b := rfl

/-- After the status comes the key. -/
@[simp] lemma decoder_next_key (on : Bool) (b : Byte) :
    decoder.next (.key on) b = .vel on (dataBits b) := rfl

/-- After the key comes the velocity. -/
@[simp] lemma decoder_next_vel (on : Bool) (k : BitVec 7) (b : Byte) :
    decoder.next (.vel on k) b = .running on := rfl

/-- After a note comes the next status, or with running status the next key. -/
@[simp] lemma decoder_next_running (on : Bool) (b : Byte) :
    decoder.next (.running on) b = if isStatus b then .status b else .vel on (dataBits b) := rfl

/-- A status byte is not answered. -/
@[simp] lemma decoder_answer_idle (b : Byte) : decoder.answer .idle b = none := rfl

/-- A key is not answered. -/
@[simp] lemma decoder_answer_key (on : Bool) (b : Byte) : decoder.answer (.key on) b = none := rfl

/-- A velocity is answered with its note. -/
@[simp] lemma decoder_answer_vel (on : Bool) (k : BitVec 7) (b : Byte) :
    decoder.answer (.vel on k) b = some ⟨on, k, dataBits b⟩ := rfl

/-- The byte after a note is not answered. -/
@[simp] lemma decoder_answer_running (on : Bool) (b : Byte) :
    decoder.answer (.running on) b = none := rfl

/-- The decoder awaits a velocity only right after the key. -/
lemma decoder_vel {bs : List Byte} {on : Bool} {k : BitVec 7} (h : decoder.after .idle bs = .vel on k) :
    ∃ cs b, bs = cs ++ [b] ∧ dataBits b = k := by
  rcases List.eq_nil_or_concat bs with rfl | ⟨cs, b, rfl⟩
  · cases h
  · refine ⟨cs, b, by simp, ?_⟩
    rw [List.concat_eq_append, Transducer.after_append] at h
    change decoder.next (decoder.after .idle cs) b = .vel on k at h
    generalize decoder.after .idle cs = a at h
    cases a with
    | idle =>
      rw [decoder_next_idle, Dec.status] at h
      split at h <;> cases h
    | key on' =>
      cases h
      rfl
    | vel on' k' => cases h
    | running on' =>
      rw [decoder_next_running, Dec.status] at h
      split at h
      · split at h <;> cases h
      · cases h
        rfl

/-- The status byte of a note leads to its key. -/
@[simp] lemma status_noteStatus (on : Bool) (channel : BitVec 4) :
    Dec.status (noteStatus on channel) = .key on := by
  simp [Dec.status]

/-- A data byte in the place of a status leads to `idle`. -/
@[simp] lemma status_dataByte (d : BitVec 7) : Dec.status (dataByte d) = .idle := by
  simp [Dec.status]

/-- The status byte of a message that is neither a note nor System Real-Time. -/
def OtherStatus := { b : Byte // 0xA0#8 ≤ b ∧ b ≤ 0xF7#8 }

/-- The status bytes of other messages have bit 7 at 1 as well. -/
lemma OtherStatus.isStatus (s : OtherStatus) : isStatus s.1 = true := by
  obtain ⟨b, h⟩ := s
  revert b; decide

/-- The status bytes of other messages lead to `idle`. -/
lemma OtherStatus.status (s : OtherStatus) : Dec.status s.1 = .idle := by
  obtain ⟨b, h⟩ := s
  revert b; decide

/-- A complete message. -/
inductive Message where
  /-- A note on a channel, sent with running status or with its status byte. -/
  | note (event : NoteEvent) (channel : BitVec 4) (running : Bool)
  /-- Any other message, with any number of data bytes. -/
  | other (status : OtherStatus) (data : List (BitVec 7))

/-- The bytes of a message. -/
def Message.bytes : Message → List Byte
  | .note ev channel running =>
    (if running then [] else [noteStatus ev.on channel]) ++ [dataByte ev.key, dataByte ev.vel]
  | .other status data => status.1 :: data.map dataByte

/-- The event a message reports. -/
def Message.event? : Message → Option NoteEvent
  | .note ev _ _ => some ev
  | .other _ _ => none

/-- The message leaves out its status byte. -/
def Message.isRunning : Message → Bool
  | .note _ _ running => running
  | .other _ _ => false

/-- Running status is used only after a note message with the same status. The first argument is the
status of the preceding message, if that was a note. -/
def Legal : Option (Bool × BitVec 4) → List Message → Prop
  | _, [] => True
  | last, .note ev channel running :: ms =>
    (running = true → last = some (ev.on, channel)) ∧ Legal (some (ev.on, channel)) ms
  | _, .other _ _ :: ms => Legal none ms

/-- The decoder's state between two messages. -/
def Dec.between : Option (Bool × BitVec 4) → Dec
  | none => .idle
  | some (on, _) => .running on

/-- Data bytes that arrive between messages are skipped. -/
lemma decoder_skips (ds : List (BitVec 7)) :
    decoder.after .idle (ds.map dataByte) = .idle ∧ decoder.answers .idle (ds.map dataByte) = [] := by
  induction ds with
  | nil => exact ⟨rfl, rfl⟩
  | cons d ds ih => simpa using ih

/-- One complete message: the decoder reports its event and is between messages again. -/
lemma decoder_message (last : Option (Bool × BitVec 4)) (m : Message) (ms : List Message)
    (legal : Legal last (m :: ms)) :
    ∃ last', Legal last' ms ∧ decoder.after (.between last) m.bytes = .between last' ∧
      decoder.answers (.between last) m.bytes = m.event?.toList := by
  cases m with
  | note ev channel running =>
    refine ⟨_, legal.2, ?_⟩
    cases running with
    | true =>
      rw [legal.1 rfl]
      simp [Dec.between, Message.bytes, Message.event?]
    | false =>
      rcases last with _ | ⟨on, channel'⟩
      · simp [Dec.between, Message.bytes, Message.event?]
      · have status := isStatus_of_isNote (isNote_noteStatus ev.on channel)
        simp [Dec.between, Message.bytes, Message.event?, status]
  | other status data =>
    refine ⟨none, legal, ?_⟩
    have skips := decoder_skips data
    rcases last with _ | ⟨on, channel'⟩
    · simpa [Dec.between, Message.bytes, Message.event?, status.status] using skips
    · simpa [Dec.between, Message.bytes, Message.event?, status.status, status.isStatus] using skips

/-- On complete messages the decoder reports exactly their events, in order. -/
theorem decoder_messages (last : Option (Bool × BitVec 4)) (ms : List Message)
    (legal : Legal last ms) :
    decoder.answers (.between last) (ms.flatMap Message.bytes) = ms.filterMap Message.event? := by
  induction ms generalizing last with
  | nil => rfl
  | cons m ms ih =>
    obtain ⟨last', legal', after, answers⟩ := decoder_message last m ms legal
    rw [List.flatMap_cons, Transducer.answers_append, answers, after, ih last' legal']
    cases h : m.event? <;> simp [h]

end Midi
