import Mathlib.Data.Nat.Notation
import Mathlib.Tactic.Common

/-!
# Serial audio

The two clocks of a left-justified serial audio link, sampled by a faster clock: the bit clock `b` and
the channel clock `d`, which is high for the left channel and low for the right one. Both channels of a
frame are sent most significant bit first from the edge of the channel clock on, one bit for each rising
edge of the bit clock; a frame begins with a rising edge of the channel clock.

`Series` says what a master does with the clocks, `bits` counts the bits of the current channel, and
`Last a t` says that cycle `t` belongs to the frame that began in cycle `a`. `Carries` says that a line
carries a word in both channels of a frame.
-/

namespace Series

section Definitions
variable (b d : ℕ → Bool)

/-- The bit clock rises at the end of cycle `t`. -/
def Rises (t : ℕ) : Prop := b t = false ∧ b (t + 1) = true

/-- The channel clock changes at the end of cycle `t`. -/
def Changes (t : ℕ) : Prop := d t ≠ d (t + 1)

/-- A frame begins at the end of cycle `t`. -/
def Begins (t : ℕ) : Prop := d t = false ∧ d (t + 1) = true

/-- The rising edges of the bit clock before cycle `t`, since the last change of the channel clock. -/
def bits : ℕ → ℕ
  | 0 => 0
  | t + 1 => if d t ≠ d (t + 1) then 0 else if b t = false ∧ b (t + 1) = true then bits t + 1 else bits t

/-- The last frame to begin before cycle `t` is that of cycle `a`. -/
def Last (a t : ℕ) : Prop := Begins d a ∧ a < t ∧ ∀ x, a < x → x < t → ¬ Begins d x

/-- The phases of the bit clock last four cycles, the channel clock changes as the bit clock falls, and a
channel has 17 bits at least. -/
structure Clocks : Prop where
  phase : ∀ t, b t ≠ b (t + 1) → ∀ k < 4, b (t + 1 + k) = b (t + 1)
  change : ∀ t, Changes d t → b t = true ∧ b (t + 1) = false
  channel : ∀ s t, s < t → Changes d s → Changes d t → 17 ≤ bits b d t

/-- In both channels of the frame that begins in cycle `a` the line `dat` carries the word `v` at the
first 16 edges of the bit clock, before and after the edge. -/
def Carries (dat : ℕ → Bool) (v : BitVec 16) (a : ℕ) : Prop :=
  ∀ t, Last d a t → Rises b t → bits b d t < 16 →
    dat t = v.getMsbD (bits b d t) ∧ dat (t + 1) = v.getMsbD (bits b d t)

end Definitions

variable {b d : ℕ → Bool} {a t : ℕ}

/-- The channel clock changes when a frame begins. -/
lemma Begins.changes (h : Begins d t) : Changes d t := by
  rw [Changes, h.1, h.2]
  decide

/-- No frame begins while the channel clock is high. -/
lemma not_begins_of_high (high : d t = true) : ¬ Begins d t := fun h => by
  rw [h.1] at high
  cases high

/-- With the channel clock the count starts again. -/
lemma bits_changes (h : Changes d t) : bits b d (t + 1) = 0 := if_pos h

/-- A rising edge of the bit clock is counted. -/
lemma bits_rises (same : ¬ Changes d t) (h : Rises b t) : bits b d (t + 1) = bits b d t + 1 :=
  (if_neg same).trans (if_pos h)

/-- Without an edge of either clock the count stays. -/
lemma bits_keeps (same : ¬ Changes d t) (h : ¬ Rises b t) : bits b d (t + 1) = bits b d t :=
  (if_neg same).trans (if_neg h)

/-- Within a channel the count does not fall. -/
lemma bits_le (same : ¬ Changes d t) : bits b d t ≤ bits b d (t + 1) := by
  by_cases h : Rises b t
  · rw [bits_rises same h]
    exact Nat.le_succ _
  · exact Nat.le_of_eq (bits_keeps same h).symm

/-- The bit clock does not rise while it is high. -/
lemma not_rises_of_high (h : b t = true) : ¬ Rises b t := fun r => by
  rw [r.1] at h
  cases h

/-- The bit clock does not rise when it is low afterwards. -/
lemma not_rises_of_low (h : b (t + 1) = false) : ¬ Rises b t := fun r => by
  rw [r.2] at h
  cases h

/-- The frame that begins now is the last one. -/
lemma Last.eq_of_begins (h : Last d a (t + 1)) (now : Begins d t) : a = t := by
  obtain ⟨-, lt, none⟩ := h
  by_contra ne
  exact none t (by omega) (Nat.lt_succ_self t) now

/-- If no frame begins now, the last one is still that of before. -/
lemma Last.before (h : Last d a (t + 1)) (same : ¬ Begins d t) : Last d a t := by
  obtain ⟨begins, lt, none⟩ := h
  refine ⟨begins, ?_, fun x lo hi => none x lo (Nat.lt_succ_of_lt hi)⟩
  rcases Nat.lt_succ_iff_lt_or_eq.mp lt with lt | rfl
  · exact lt
  · exact absurd begins same

namespace Clocks
variable (c : Clocks b d)
include c

/-- The channel clock does not change while the bit clock is low. -/
lemma not_changes_of_low (h : b t = false) : ¬ Changes d t := fun change => by
  rw [(c.change t change).1] at h
  cases h

/-- When the bit clock has fallen it stays low for four cycles. -/
lemma low_of_falls (high : b t = true) (low : b (t + 1) = false) {k : ℕ} (hk : k < 4) :
    b (t + 1 + k) = false := by
  rw [c.phase t (by rw [high, low]; decide) k hk, low]

/-- And so it does when the channel clock changes. -/
lemma low_of_changes (h : Changes d t) {k : ℕ} (hk : k < 4) : b (t + 1 + k) = false :=
  c.low_of_falls (c.change t h).1 (c.change t h).2 hk

end Clocks

end Series
