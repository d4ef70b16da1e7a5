import TecMidi.Sync.Segments

/-!
# Asynchronous serial frames

The wave of a line that carries bytes as frames of one start bit (low), eight data bits, least
significant first, and one stop bit (high), each bit `P` cycles long (`frame`). A `line` is any number
of such frames, each one after an idle gap (possibly empty), and high for ever after them.

`line_received` is the rule for receivers: one that stays idle while the line is high and that turns
one frame, started from any idle state, into one byte receives exactly the bytes of every line.
`getLsbD_shifted` is about the registers that such receivers shift the bits into.
-/

namespace Sync.Serial

variable {σ ο : Type*} {P : ℕ}

/-- The level in cycle `t` of the frame of `b`. -/
def frame (P : ℕ) (b : BitVec 8) (t : ℕ) : Bool :=
  if t < P then false else if t < 9 * P then b.getLsbD (t / P - 1) else true

/-- The level in cycle `t` of a line that carries `fs`: gaps and bytes. -/
def line (P : ℕ) : List (ℕ × BitVec 8) → ℕ → Bool
  | [], _ => true
  | (gap, b) :: fs, t =>
    if t < gap then true
    else if t < gap + 10 * P then frame P b (t - gap)
    else line P fs (t - (gap + 10 * P))

/-- The number of cycles until the last frame of a line ends. -/
def duration (P : ℕ) : List (ℕ × BitVec 8) → ℕ
  | [] => 0
  | (gap, _) :: fs => gap + 10 * P + duration P fs

/-- The start bit is low. -/
lemma frame_start {b : BitVec 8} {t : ℕ} (h : t < P) : frame P b t = false := by
  rw [frame, if_pos h]

/-- Data bit `i` takes the cycles from `(i + 1) * P` on. -/
lemma frame_data {b : BitVec 8} {t i : ℕ} (hi : i < 8) (lo : (i + 1) * P ≤ t)
    (hi' : t < (i + 2) * P) : frame P b t = b.getLsbD i := by
  have first : P ≤ (i + 1) * P := Nat.le_mul_of_pos_left P (Nat.succ_pos i)
  have last : (i + 2) * P ≤ 9 * P := Nat.mul_le_mul_right P (by omega)
  have quot : t / P = i + 1 := Nat.div_eq_of_lt_le lo hi'
  rw [frame, if_neg (by omega), if_pos (by omega), quot, Nat.add_sub_cancel]

/-- The stop bit is high. -/
lemma frame_stop {b : BitVec 8} {t : ℕ} (h : 9 * P ≤ t) (pos : 0 < P) : frame P b t = true := by
  rw [frame, if_neg (by omega), if_neg (by omega)]

/-- The frame of a byte whose last bit is the only low one. -/
lemma frame_7F {P t : ℕ} (pos : 0 < P) :
    frame P 0x7F#8 t = true ↔ (P ≤ t ∧ t < 8 * P) ∨ 9 * P ≤ t := by
  have ones : ∀ i < 8, (0x7F#8).getLsbD i = decide (i < 7) := by decide
  rcases Nat.lt_or_ge t P with start | data
  · rw [frame_start start]
    refine iff_of_false (by simp) ?_
    rintro (⟨ge, -⟩ | ge) <;> omega
  · rcases Nat.lt_or_ge t (9 * P) with lt | stop
    · have one : 1 ≤ t / P := (Nat.one_le_div_iff pos).mpr data
      have nine : t / P < 9 := (Nat.div_lt_iff_lt_mul pos).mpr lt
      have seven : t / P < 8 ↔ t < 8 * P := Nat.div_lt_iff_lt_mul pos
      rw [frame, if_neg (by omega), if_pos lt, ones _ (by omega), decide_eq_true_iff]
      omega
    · exact iff_of_true (frame_stop stop pos) (.inr stop)

/-- A line of frames is a line of segments. -/
lemma line_segments (P : ℕ) (fs : List (ℕ × BitVec 8)) :
    line P fs = Segments.line (fun _ => 10 * P) (frame P) fs := by
  induction fs with
  | nil => rfl
  | cons f fs ih =>
    funext t
    rw [line, Segments.line, ih]

/-- The bytes of a line with the cycles in which their frames start. -/
def starts (P : ℕ) (fs : List (ℕ × BitVec 8)) : List (ℕ × BitVec 8) :=
  Segments.starts (fun _ => 10 * P) fs

/-- The duration of a line is that of its segments. -/
lemma duration_segments (P : ℕ) (fs : List (ℕ × BitVec 8)) :
    duration P fs = Segments.total (fun _ => 10 * P) fs := by
  induction fs with
  | nil => rfl
  | cons f fs ih => rw [duration, Segments.total, ih]

/-- The line is high in a gap. -/
lemma line_gap {gap t : ℕ} {b : BitVec 8} {fs : List (ℕ × BitVec 8)} (h : t < gap) :
    line P ((gap, b) :: fs) t = true := by
  rw [line_segments]
  exact Segments.line_gap h

/-- After its gap the line carries the frame. -/
lemma line_frame {gap t : ℕ} {b : BitVec 8} {fs : List (ℕ × BitVec 8)} (h : t < 10 * P) :
    shift gap (line P ((gap, b) :: fs)) t = frame P b t := by
  rw [line_segments]
  exact Segments.line_head h

/-- A line that is high at first is still a line once that time has passed. -/
lemma line_lead {n : ℕ} (pos : 0 < P) (fs : List (ℕ × BitVec 8)) (lead : ∀ t < n, line P fs t = true) :
    ∃ fs', shift n (line P fs) = line P fs' ∧ fs'.map Prod.snd = fs.map Prod.snd ∧
      duration P fs' ≤ duration P fs - n := by
  cases fs with
  | nil => exact ⟨[], rfl, rfl, Nat.zero_le _⟩
  | cons f fs =>
    obtain ⟨gap, b⟩ := f
    have le : n ≤ gap := by
      by_contra lt
      have low : line P ((gap, b) :: fs) (gap + 0) = false :=
        (line_frame (by omega)).trans (frame_start pos)
      rw [Nat.add_zero, lead gap (by omega)] at low
      cases low
    obtain ⟨k, rfl⟩ := Nat.exists_eq_add_of_le le
    refine ⟨(k, b) :: fs, ?_, rfl, by simp only [duration]; omega⟩
    funext t
    simp only [shift_apply, line, Nat.add_assoc, Nat.add_lt_add_iff_left, Nat.add_sub_add_left]

/-- After its last frame a line is high. -/
lemma line_end {fs : List (ℕ × BitVec 8)} {t : ℕ} (h : duration P fs ≤ t) : line P fs t = true := by
  induction fs generalizing t with
  | nil => rfl
  | cons f fs ih =>
    simp only [duration] at h
    rw [line, if_neg (by omega), if_neg (by omega)]
    exact ih (by omega)

/-- A line with one such frame. -/
lemma line_7F {gap t : ℕ} (pos : 0 < P) : line P [(gap, 0x7F#8)] t = true ↔
    t < gap ∨ (gap + P ≤ t ∧ t < gap + 8 * P) ∨ gap + 9 * P ≤ t := by
  rcases Nat.lt_or_ge t gap with before | ge
  · exact iff_of_true (line_gap before) (.inl before)
  · obtain ⟨k, rfl⟩ := Nat.exists_eq_add_of_le ge
    have level : line P [(gap, 0x7F#8)] (gap + k) = frame P 0x7F#8 k := by
      rcases Nat.lt_or_ge k (10 * P) with lt | stop
      · exact line_frame lt
      · rw [line_end (by simp only [duration]; omega), frame_stop (by omega) pos]
    rw [level, frame_7F pos]
    omega

/-- Frames without gaps take ten bits each. -/
lemma duration_replicate (P n : ℕ) (b : BitVec 8) : duration P (.replicate n (0, b)) = n * (10 * P) := by
  induction n with
  | zero => rw [List.replicate_zero, duration, Nat.zero_mul]
  | succ n ih =>
    rw [List.replicate_succ, duration, ih, Nat.add_one_mul n, Nat.zero_add, Nat.add_comm]

/-- Any eight levels are the bits of a byte. -/
lemma exists_byte (f : ℕ → Bool) : ∃ b : BitVec 8, ∀ i < 8, f i = b.getLsbD i := by
  have bits (n : ℕ) : ∃ b : BitVec n, ∀ i < n, f i = b.getLsbD i := by
    induction n with
    | zero => exact ⟨0#0, nofun⟩
    | succ n ih =>
      obtain ⟨b, eq⟩ := ih
      refine ⟨.cons (f n) b, fun i lt => ?_⟩
      rw [BitVec.getLsbD_cons]
      by_cases top : i = n
      · rw [if_pos top, top]
      · rw [if_neg top]
        exact eq i (by omega)
  exact bits 8

section ShiftRegister
variable {m : ℕ}

/-- The bits of a shift register after it has taken one in at its top. -/
lemma getLsbD_shiftIn (x : Bool) (c : BitVec (m + 1)) {i : ℕ} (hi : i ≤ m) :
    (BitVec.cons x (c.extractLsb' 1 m)).getLsbD i = if i = m then x else c.getLsbD (i + 1) := by
  rw [BitVec.getLsbD_cons]
  by_cases top : i = m
  · rw [if_pos top, if_pos top]
  · rw [if_neg top, if_neg top, BitVec.getLsbD_extractLsb', Nat.add_comm 1 i]
    simp only [show i < m by omega, decide_true, Bool.true_and]

/-- The last `n` bits taken in are the top ones. -/
lemma getLsbD_shifted {r : ℕ → BitVec (m + 1)} {x : ℕ → Bool}
    (step : ∀ n, r (n + 1) = .cons (x n) ((r n).extractLsb' 1 m)) {n j : ℕ} (hj : j < n) (h : j ≤ m) :
    (r n).getLsbD (m - j) = x (n - 1 - j) := by
  induction n generalizing j with
  | zero => exact absurd hj (Nat.not_lt_zero j)
  | succ n ih =>
    rw [step, getLsbD_shiftIn _ _ (Nat.sub_le m j)]
    cases j with
    | zero => rw [if_pos (Nat.sub_zero m), Nat.add_sub_cancel, Nat.sub_zero]
    | succ j =>
      rw [if_neg (by omega), show m - (j + 1) + 1 = m - j by omega, ih (by omega) (by omega)]
      congr 1
      omega

end ShiftRegister

section Receiver

variable (M : Machine σ Bool ο) (tok : ο → Option (BitVec 8)) (Idle : σ → Prop)

/-- A receiver that is idle stays so, silently, while the line is high. -/
lemma gap_received (high : ∀ s, Idle s → Idle (M.next s true) ∧ tok (M.out s true) = none)
    {s : σ} (idle : Idle s) {w : ℕ → Bool} {n : ℕ} (hw : ∀ t < n, w t = true) :
    Idle (M.run s w n) ∧ log (fun t => tok (M.wave s w t)) n = [] := by
  induction n with
  | zero => exact ⟨idle, rfl⟩
  | succ n ih =>
    obtain ⟨idle', silent⟩ := ih fun t ht => hw t (Nat.lt_succ_of_lt ht)
    obtain ⟨idle'', quiet⟩ := high _ idle'
    have hn := hw n (Nat.lt_succ_self n)
    refine ⟨?_, ?_⟩
    · rw [Machine.run_succ, hn]
      exact idle''
    · rw [log_succ, silent, Machine.wave, hn, quiet]
      rfl

/-- A receiver that delivers one byte, and is idle on a high line from then on, reads that byte only. -/
lemma frame_received (high : ∀ s, Idle s → Idle (M.next s true) ∧ tok (M.out s true) = none)
    {s : σ} {w : ℕ → Bool} {b : BitVec 8} {m n : ℕ} (lt : m < n)
    (silent : ∀ t < m, tok (M.wave s w t) = none) (pulse : tok (M.wave s w m) = some b)
    (idle : Idle (M.run s w (m + 1))) (hw : ∀ t, m < t → t < n → w t = true) :
    Idle (M.run s w n) ∧ log (fun t => tok (M.wave s w t)) n = [b] := by
  obtain ⟨k, rfl⟩ := Nat.exists_eq_add_of_le (show m + 1 ≤ n from lt)
  obtain ⟨idle', quiet⟩ := gap_received M tok Idle high idle (w := shift (m + 1) w) (n := k)
    fun t ht => hw (m + 1 + t) (by omega) (by omega)
  refine ⟨by rw [Machine.run_add]; exact idle', ?_⟩
  rw [Machine.log_wave_add, quiet, log_succ, log_eq_nil silent, pulse]
  rfl

/-- A receiver that is idle on a high line and reads one frame reads all frames of a line. -/
theorem line_received (high : ∀ s, Idle s → Idle (M.next s true) ∧ tok (M.out s true) = none)
    (one : ∀ s w b, Idle s → (∀ t < 10 * P, w t = frame P b t) →
      Idle (M.run s w (10 * P)) ∧ log (fun t => tok (M.wave s w t)) (10 * P) = [b])
    {s : σ} (idle : Idle s) (fs : List (ℕ × BitVec 8)) {n : ℕ} (long : duration P fs ≤ n) :
    Idle (M.run s (line P fs) n) ∧
      log (fun t => tok (M.wave s (line P fs) t)) n = fs.map Prod.snd := by
  have rcv : Segments.Receives (fun _ => 10 * P) (frame P) M Idle :=
    ⟨fun s idle => (high s idle).1, fun b s w idle hw => (one s w b idle hw).1⟩
  rw [duration_segments] at long
  rw [line_segments, List.map_eq_flatMap]
  exact rcv.delivers (fun s idle => (high s idle).2) (fun b s w idle hw => (one s w b idle hw).2) idle fs
    long

end Receiver

end Sync.Serial
