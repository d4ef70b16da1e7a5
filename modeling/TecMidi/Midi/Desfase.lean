import TecMidi.Midi.Message

/-!
# A decoder out of step

After a note status the decoder takes the bytes in pairs, a key and a velocity, and it only looks at bit 7
between two pairs. So when a note is cut short the rest of the stream is read in pairs that begin in the
wrong place (`pares`), as long as every message ends in the middle of one (`Desfasado`). When a message ends
with a pair, the decoder is in step again: `decoder_desfase`.

From any state, two notes with their status bytes are enough for that (`decoder_vuelve`).
-/

namespace Midi
open Sync

/-- The notes read from data taken in pairs. -/
def pares (on : Bool) : List (BitVec 7) → List NoteEvent
  | k :: v :: ds => ⟨on, k, v⟩ :: pares on ds
  | _ => []

/-- Where the decoder stands after them. -/
def Dec.tras (on : Bool) : List (BitVec 7) → Dec
  | [] => .running on
  | [k] => .vel on k
  | _ :: _ :: ds => .tras on ds

/-- No message begins between two pairs, when `n` bytes have been read since the note status. -/
def Desfasado : ℕ → List Message → Prop
  | _, [] => True
  | n, m :: ms => (n = 0 ∨ n % 2 = 1) ∧ Desfasado (n + m.bytes.length) ms

variable (on : Bool) {xs ys : List (BitVec 7)}

/-- Data that are whole pairs are read apart from what follows. -/
lemma pares_append (even : xs.length % 2 = 0) : pares on (xs ++ ys) = pares on xs ++ pares on ys := by
  induction xs using pares.induct with
  | case1 k v ds ih =>
    simp only [List.length_cons] at even
    exact congrArg (_ :: ·) (ih (by omega))
  | case2 ds short =>
    match ds with
    | [] => rfl
    | [k] => cases even
    | k :: v :: ds => exact absurd rfl (short k v ds)

/-- After whole pairs the decoder stands as at their beginning. -/
lemma tras_append (ys : List (BitVec 7)) (even : xs.length % 2 = 0) :
    Dec.tras on (xs ++ ys) = Dec.tras on ys := by
  induction xs using Dec.tras.induct with
  | case1 => rfl
  | case2 k => cases even
  | case3 k v ds ih =>
    simp only [List.length_cons] at even
    exact ih (by omega)

/-- After whole pairs the decoder is between two messages. -/
lemma tras_even (even : xs.length % 2 = 0) : Dec.tras on xs = .running on := by
  have append := tras_append on [] even
  rwa [List.append_nil] at append

/-- An odd number of data bytes ends with a key. -/
lemma exists_key (odd : xs.length % 2 = 1) : ∃ zs k, xs = zs ++ [k] ∧ zs.length % 2 = 0 := by
  rcases List.eq_nil_or_concat xs with rfl | ⟨zs, k, rfl⟩
  · cases odd
  · refine ⟨zs, k, List.concat_eq_append, ?_⟩
    rw [List.length_concat] at odd
    omega

/-- A pair is one note. -/
lemma length_pares (xs : List (BitVec 7)) : (pares on xs).length = xs.length / 2 := by
  induction xs using Dec.tras.induct with
  | case1 => rfl
  | case2 k => simp [pares]
  | case3 k v ds ih =>
    simp only [pares, List.length_cons, ih]
    omega

/-- With no status byte between pairs, data is read in pairs. -/
lemma decoder_datos : ∀ ds : List (BitVec 7),
    decoder.answers (.running on) (ds.map dataByte) = pares on ds ∧
      decoder.after (.running on) (ds.map dataByte) = .tras on ds
  | [] => ⟨rfl, rfl⟩
  | [d] => by simp [pares, Dec.tras]
  | k :: v :: ds => by
    obtain ⟨answers, after⟩ := decoder_datos ds
    simp [pares, Dec.tras, answers, after]

/-- A byte that arrives after a key is its velocity. -/
lemma decoder_tras_key (k : BitVec 7) (b : Byte) (ds : List (BitVec 7)) :
    decoder.answers (.vel on k) (b :: ds.map dataByte) = pares on (k :: dataBits b :: ds) ∧
      decoder.after (.vel on k) (b :: ds.map dataByte) = .tras on (k :: dataBits b :: ds) := by
  obtain ⟨answers, after⟩ := decoder_datos on ds
  constructor
  · rw [Transducer.answers_cons, decoder_answer_vel, decoder_next_vel, answers]
    rfl
  · rw [Transducer.after_cons, decoder_next_vel, after]
    rfl

/-- And one that arrives after the status, a key. -/
lemma decoder_tras_status (b : Byte) (ds : List (BitVec 7)) :
    decoder.answers (.key on) (b :: ds.map dataByte) = pares on (dataBits b :: ds) ∧
      decoder.after (.key on) (b :: ds.map dataByte) = .tras on (dataBits b :: ds) := by
  match ds with
  | [] => exact ⟨rfl, rfl⟩
  | d :: ds =>
    obtain ⟨answers, after⟩ := decoder_tras_key on (dataBits b) (dataByte d) ds
    rw [dataBits_dataByte] at answers after
    exact ⟨answers, after⟩

/-- Only the first byte of a message may be a status byte. -/
lemma Message.bytes_cons (m : Message) : ∃ (b : Byte) (ds : List (BitVec 7)), m.bytes = b :: ds.map dataByte := by
  cases m with
  | note ev channel running =>
    cases running with
    | true => exact ⟨_, [ev.vel], rfl⟩
    | false => exact ⟨_, [ev.key, ev.vel], rfl⟩
  | other status data => exact ⟨_, data, rfl⟩

/-- Where the decoder stands when it has read `xs` since a note status. -/
def Dec.desde (on : Bool) (xs : List (BitVec 7)) : Dec := if xs = [] then .key on else .tras on xs

/-- A message that begins in the middle of a pair is read in pairs. -/
lemma decoder_mensaje (m : Message) (out : xs.length = 0 ∨ xs.length % 2 = 1) :
    pares on xs ++ decoder.answers (.desde on xs) m.bytes = pares on (xs ++ m.bytes.map dataBits) ∧
      decoder.after (.desde on xs) m.bytes = .desde on (xs ++ m.bytes.map dataBits) := by
  obtain ⟨b, ds, eq⟩ := m.bytes_cons
  have data : m.bytes.map dataBits = dataBits b :: ds := by
    rw [eq, List.map_cons, List.map_map]
    exact congrArg (_ :: ·) ((List.map_congr_left fun d _ => dataBits_dataByte d).trans ds.map_id)
  have more : Dec.desde on (xs ++ dataBits b :: ds) = .tras on (xs ++ dataBits b :: ds) :=
    if_neg (by simp)
  rw [data, more, eq]
  rcases out with zero | odd
  · obtain rfl := List.eq_nil_of_length_eq_zero zero
    exact decoder_tras_status on b ds
  · obtain ⟨zs, k, rfl, even⟩ := exists_key odd
    obtain ⟨answers, after⟩ := decoder_tras_key on k b ds
    have now : Dec.desde on (zs ++ [k]) = .vel on k := (if_neg (by simp)).trans (tras_append on _ even)
    rw [now, answers, after, List.append_assoc, pares_append on even, pares_append on even,
      tras_append on _ even]
    exact ⟨by simp [pares], rfl⟩

/-- The messages of a stream out of step are read in pairs. -/
lemma decoder_desfasado (ms : List Message) (out : Desfasado xs.length ms) :
    pares on xs ++ decoder.answers (.desde on xs) (ms.flatMap Message.bytes) =
        pares on (xs ++ (ms.flatMap Message.bytes).map dataBits) ∧
      decoder.after (.desde on xs) (ms.flatMap Message.bytes) =
        .desde on (xs ++ (ms.flatMap Message.bytes).map dataBits) := by
  induction ms generalizing xs with
  | nil => simp
  | cons m ms ih =>
    obtain ⟨middle, rest⟩ := out
    obtain ⟨answers, after⟩ := decoder_mensaje on m middle
    have long : (xs ++ m.bytes.map dataBits).length = xs.length + m.bytes.length := by simp
    rw [← long] at rest
    obtain ⟨answers', after'⟩ := ih rest
    rw [List.flatMap_cons, Transducer.answers_append, Transducer.after_append, after, after',
      ← List.append_assoc, answers, answers', List.map_append, List.append_assoc]
    exact ⟨rfl, rfl⟩

/-- A stream that begins with a status byte may follow any other. -/
lemma Legal.any {ms : List Message} (legal : Legal none ms) (last : Option (Bool × BitVec 4)) :
    Legal last ms := by
  cases ms with
  | nil => trivial
  | cons m ms =>
    cases m with
    | note ev channel running => exact ⟨fun on => absurd (legal.1 on) nofun, legal.2⟩
    | other status data => exact legal

/-- After complete messages the decoder is between two of them. -/
lemma decoder_entre (last : Option (Bool × BitVec 4)) (ms : List Message) (legal : Legal last ms) :
    ∃ last', decoder.after (.between last) (ms.flatMap Message.bytes) = .between last' := by
  induction ms generalizing last with
  | nil => exact ⟨last, rfl⟩
  | cons m ms ih =>
    obtain ⟨last', legal', after, -⟩ := decoder_message last m ms legal
    rw [List.flatMap_cons, Transducer.after_append, after]
    exact ih last' legal'

/-- There, the first bytes of a note lead into it. -/
lemma decoder_parte (last : Option (Bool × BitVec 4)) (channel : BitVec 4) (xs : List (BitVec 7))
    (short : xs.length ≤ 1) :
    decoder.answers (.between last) (noteStatus on channel :: xs.map dataByte) = pares on xs ∧
      decoder.after (.between last) (noteStatus on channel :: xs.map dataByte) = .desde on xs := by
  have start : decoder.answer (.between last) (noteStatus on channel) = none ∧
      decoder.next (.between last) (noteStatus on channel) = .key on := by
    cases last with
    | none => exact ⟨rfl, status_noteStatus on channel⟩
    | some q => simp [Dec.between, isStatus_of_isNote (isNote_noteStatus on channel)]
  cases xs with
  | nil =>
    rw [List.map_nil, Transducer.answers_cons, Transducer.after_cons, start.1, start.2]
    exact ⟨rfl, rfl⟩
  | cons k ds =>
    obtain rfl : ds = [] := List.eq_nil_of_length_eq_zero (Nat.le_zero.mp (Nat.le_of_succ_le_succ short))
    rw [List.map_singleton, Transducer.answers_cons, Transducer.after_cons, start.1, start.2]
    simp [pares, Dec.desde, Dec.tras]

/-- A stream out of step ends with a pair when an even number of bytes has come since the note status. -/
def Cierra (n : ℕ) (ms : List Message) : Prop :=
  0 < n + (ms.flatMap Message.bytes).length ∧ (n + (ms.flatMap Message.bytes).length) % 2 = 0

/-- A note cut short: the messages after it are read in pairs, and once one of them ends with a pair the rest
is read as it was sent. -/
theorem decoder_desfase (xs : List (BitVec 7)) (ms post : List Message) (out : Desfasado xs.length ms)
    (close : post = [] ∨ Cierra xs.length ms) (legal : Legal none post) :
    pares on xs ++ decoder.answers (.desde on xs) ((ms ++ post).flatMap Message.bytes) =
      pares on (xs ++ (ms.flatMap Message.bytes).map dataBits) ++ post.filterMap Message.event? := by
  obtain ⟨answers, after⟩ := decoder_desfasado on ms out
  rw [List.flatMap_append, Transducer.answers_append, after, ← List.append_assoc, answers]
  refine congrArg (_ ++ ·) ?_
  rcases close with rfl | ⟨some_, even⟩
  · rfl
  · have long : (xs ++ (ms.flatMap Message.bytes).map dataBits).length =
        xs.length + (ms.flatMap Message.bytes).length := by simp
    rw [← long] at some_ even
    have step : Dec.desde on (xs ++ (ms.flatMap Message.bytes).map dataBits) = .between (some (on, 0#4)) :=
      (if_neg (List.ne_nil_of_length_pos some_)).trans (tras_even on even)
    rw [step]
    exact decoder_messages _ post (legal.any _)

/-- Two notes with their status bytes bring the decoder in step again: from any state it reports three
notes at most before the rest of the stream, the last of them with the key and the velocity of the second
one. -/
theorem decoder_vuelve (a : Dec) (e₁ e₂ : NoteEvent) (c₁ c₂ : BitVec 4) (post : List Message)
    (legal : Legal none post) :
    ∃ falsas on, falsas.length ≤ 2 ∧
      decoder.answers a ((.note e₁ c₁ false :: .note e₂ c₂ false :: post).flatMap Message.bytes) =
        falsas ++ ⟨on, e₂.key, e₂.vel⟩ :: post.filterMap Message.event? := by
  have legal₂ : Legal none (.note e₂ c₂ false :: post) := ⟨nofun, legal.any _⟩
  have legal₁ : Legal none (.note e₁ c₁ false :: .note e₂ c₂ false :: post) := ⟨nofun, legal₂.any _⟩
  cases a with
  | idle =>
    have read := decoder_messages none _ legal₁
    exact ⟨[e₁], e₂.on, by simp, read⟩
  | running on =>
    have read := decoder_messages (some (on, 0#4)) _ (legal₁.any _)
    exact ⟨[e₁], e₂.on, by simp, read⟩
  | vel on k =>
    have read := decoder_desfase on [k] [.note e₁ c₁ false] (.note e₂ c₂ false :: post)
      ⟨.inr (by simp), trivial⟩ (.inr (by simp [Cierra, Message.bytes])) legal₂
    refine ⟨_, e₂.on, ?_, read⟩
    rw [length_pares]
    simp [Message.bytes]
  | key on =>
    have read := decoder_desfase on [] [.note e₁ c₁ false, .note e₂ c₂ false] post
      ⟨.inl rfl, .inr (by simp [Message.bytes]), trivial⟩ (.inr (by simp [Cierra, Message.bytes])) legal
    refine ⟨[⟨on, dataBits (noteStatus e₁.on c₁), e₁.key⟩, ⟨on, e₁.vel, dataBits (noteStatus e₂.on c₂)⟩], on,
      Nat.le_refl 2, read.trans ?_⟩
    simp [pares, Message.bytes]

end Midi
