import TecMidi.Rx.Resync

/-!
# System Real-Time bytes between messages

Neither decoder of the repository treats the System Real-Time bytes apart: to `modulo2` they are status
bytes. Between two messages such a byte is skipped, and it ends running status, so that the notes sent
with running status after it are not reported until a note comes with its status byte again. `heard` is
what is left of a stream of messages into which System Real-Time bytes have been inserted between
messages; `modulo2_realTime` says that `modulo2` reports exactly that, and everything if no burst comes
before a message with running status.
-/

namespace Modulo2
open Sync Midi

/-- A System Real-Time byte. -/
structure RealTimeByte where
  byte : Byte
  realTime : isRealTime byte = true

/-- A message after a burst of System Real-Time bytes. -/
structure Item where
  burst : List RealTimeByte
  message : Message

/-- The bytes of a message with the Real-Time bytes before it. -/
def Item.bytes (i : Item) : List Byte := i.burst.map RealTimeByte.byte ++ i.message.bytes

/-- The events reported of a stream of items; the flag says that running status has been forgotten. -/
def heard : Bool → List Item → List NoteEvent
  | _, [] => []
  | forgot, i :: is =>
    let forgot' := i.message.isRunning && (forgot || !i.burst.isEmpty)
    (if forgot' = true then [] else i.message.event?.toList) ++ heard forgot' is

/-- The decoder's state between two items. -/
def between (forgot : Bool) (last : Option (Bool × BitVec 4)) : Dec :=
  if forgot = true then .idle else .between last

/-- A burst makes the decoder forget running status, and reports nothing. -/
lemma decoder_burst (forgot : Bool) (last : Option (Bool × BitVec 4)) (burst : List RealTimeByte) :
    decoder.after (between forgot last) (burst.map RealTimeByte.byte) =
        between (forgot || !burst.isEmpty) last ∧
      decoder.answers (between forgot last) (burst.map RealTimeByte.byte) = [] := by
  induction burst generalizing forgot with
  | nil => simp
  | cons b burst ih =>
    obtain ⟨status, note⟩ := isRealTime_status b.realTime
    have next : decoder.next (between forgot last) b.byte = between true last := by
      cases forgot with
      | true => simp [between, Dec.status, note]
      | false =>
        rcases last with _ | ⟨on, channel⟩ <;>
          simp [between, Dec.between, Dec.status, note, status]
    have answer : decoder.answer (between forgot last) b.byte = none := by
      cases forgot with
      | true => rfl
      | false => rcases last with _ | ⟨on, channel⟩ <;> rfl
    obtain ⟨after, answers⟩ := ih true
    rw [List.map_cons, Transducer.after_cons, Transducer.answers_cons, next, answer, after, answers]
    simp

/-- One item: its message is reported unless its running status has been forgotten. -/
lemma decoder_item (forgot : Bool) (last : Option (Bool × BitVec 4)) (i : Item) (ms : List Message)
    (legal : Legal last (i.message :: ms)) :
    ∃ last', Legal last' ms ∧
      decoder.after (between forgot last) i.bytes =
        between (i.message.isRunning && (forgot || !i.burst.isEmpty)) last' ∧
      decoder.answers (between forgot last) i.bytes =
        if (i.message.isRunning && (forgot || !i.burst.isEmpty)) = true then []
        else i.message.event?.toList := by
  obtain ⟨burst, m⟩ := i
  obtain ⟨after, answers⟩ := decoder_burst forgot last burst
  rw [Item.bytes, Transducer.after_append, Transducer.answers_append, after, answers, List.nil_append]
  cases forgot || !burst.isEmpty with
  | false =>
    rw [Bool.and_false]
    exact decoder_message last m ms legal
  | true =>
    -- running status is forgotten: the decoder waits for a status byte
    cases m with
    | note ev channel running =>
      refine ⟨_, legal.2, ?_⟩
      cases running with
      | true => simp [between, Message.bytes, Message.isRunning]
      | false => simp [between, Dec.between, Message.bytes, Message.isRunning, Message.event?]
    | other status data =>
      refine ⟨none, legal, ?_⟩
      have skips := decoder_skips data
      simpa [between, Dec.between, Message.bytes, Message.isRunning, Message.event?, status.status]
        using skips

/-- The decoder reports what is left of a stream of items. -/
theorem decoder_items (forgot : Bool) (last : Option (Bool × BitVec 4)) (is : List Item)
    (rest : List RealTimeByte) (legal : Legal last (is.map Item.message)) :
    decoder.answers (between forgot last) (is.flatMap Item.bytes ++ rest.map RealTimeByte.byte) =
      heard forgot is := by
  induction is generalizing forgot last with
  | nil => exact (decoder_burst forgot last rest).2
  | cons i is ih =>
    obtain ⟨last', legal', after, answers⟩ := decoder_item forgot last i _ legal
    rw [List.flatMap_cons, List.append_assoc, Transducer.answers_append, after, answers, ih _ _ legal']
    rfl

/-- Bursts before messages with a status byte leave every event. -/
lemma heard_all {is : List Item} (explicit : ∀ i ∈ is, i.message.isRunning = true → i.burst = []) :
    heard false is = (is.map Item.message).filterMap Message.event? := by
  induction is with
  | nil => rfl
  | cons i is ih =>
    have kept : (i.message.isRunning && (false || !i.burst.isEmpty)) = false := by
      cases h : i.message.isRunning with
      | false => rfl
      | true => rw [explicit i (by simp) h]; rfl
    rw [heard, kept, ih fun j hj => explicit j (List.mem_cons_of_mem i hj), List.map_cons]
    cases hm : i.message.event? <;> simp [hm]

/-- System Real-Time bytes inserted between complete messages: the notes reported are those sent with a
status byte and those sent with running status since the last such byte was inserted. If none is
inserted before a message with running status, the events are those of the messages. -/
theorem modulo2_realTime {w : ℕ → In} {t : ℕ} (d : Fed w) (r : BitVec 4) (is : List Item)
    (rest : List RealTimeByte) (legal : Legal none (is.map Item.message))
    (bytes : received w t = is.flatMap Item.bytes ++ rest.map RealTimeByte.byte)
    (quiet : ∀ u < t, t ≤ u + 3 → (w u).ready = false) :
    log (fun t => (modulo2.wave (reset r) w t).event?) t = heard false is ∧
      ((∀ i ∈ is, i.message.isRunning = true → i.burst = []) →
        log (fun t => (modulo2.wave (reset r) w t).event?) t =
          (is.map Item.message).filterMap Message.event?) := by
  have reported : log (fun t => (modulo2.wave (reset r) w t).event?) t = heard false is := by
    rw [modulo2_decodes d r quiet, show log (fun t => (w t).byte?) t = _ from bytes]
    exact decoder_items false none is rest legal
  exact ⟨reported, fun explicit => reported.trans (heard_all explicit)⟩

/-- Timing Clock and Active Sensing before a note, and Active Sensing after it and before a second note
with running status: the second note is not reported, the third one is. -/
theorem modulo2_realTime_example :
    log (fun t => (modulo2.wave (reset 0#4) (stream [0xF8#8, 0xFE#8, 0x90#8, 60#8, 100#8, 0xFE#8,
        62#8, 100#8, 0x80#8, 60#8, 0#8]) t).event?) 70 =
      [⟨true, 60#7, 100#7⟩, ⟨false, 60#7, 0#7⟩] :=
  (modulo2_realTime (stream_fed _) 0#4
    [⟨[⟨0xF8#8, rfl⟩, ⟨0xFE#8, rfl⟩], .note ⟨true, 60#7, 100#7⟩ 0#4 false⟩,
      ⟨[⟨0xFE#8, rfl⟩], .note ⟨true, 62#7, 100#7⟩ 0#4 true⟩,
      ⟨[], .note ⟨false, 60#7, 0#7⟩ 0#4 false⟩]
    [] (by simp [Legal]) (by decide) (by decide)).1

/-- Active Sensing inserted before a note with running status: the note is lost. -/
theorem realTime_not_transparent :
    Legal none [.note ⟨true, 60#7, 100#7⟩ 0#4 false, .note ⟨true, 62#7, 100#7⟩ 0#4 true] ∧
      [Message.note ⟨true, 60#7, 100#7⟩ 0#4 false, .note ⟨true, 62#7, 100#7⟩ 0#4 true].flatMap
        Message.bytes = [0x90#8, 60#8, 100#8, 62#8, 100#8] ∧
      [0x90#8, 60#8, 100#8, 0xFE#8, 62#8, 100#8].filter (fun b => !isRealTime b) =
        [0x90#8, 60#8, 100#8, 62#8, 100#8] ∧
      log (fun t => (modulo2.wave (reset 0#4)
          (stream [0x90#8, 60#8, 100#8, 62#8, 100#8]) t).event?) 40 =
        [⟨true, 60#7, 100#7⟩, ⟨true, 62#7, 100#7⟩] ∧
      log (fun t => (modulo2.wave (reset 0#4)
          (stream [0x90#8, 60#8, 100#8, 0xFE#8, 62#8, 100#8]) t).event?) 40 =
        [⟨true, 60#7, 100#7⟩] := by
  refine ⟨by simp [Legal], by decide, by decide, by decide, by decide⟩

end Modulo2
