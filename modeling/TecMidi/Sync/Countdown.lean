import TecMidi.Sync.Machine

/-!
# Countdowns

A machine counts down when a measure `f` of its state falls by one with every edge until it is 0, except
for the edges that make it start again from `n`. `Countdown.zero_iff` says when the count is over: after
`n` edges in a row without a restart, the first of them the first edge of the run or the one after a
restart.
-/

namespace Sync

variable {σ ι ο : Type*}

/-- On the states `P`, the measure `f` counts down from `n`, and `R` makes it start again. -/
structure Countdown (M : Machine σ ι ο) (P : σ → Prop) (f : σ → ℕ) (R : σ → ι → Prop) (n : ℕ) : Prop where
  keeps : ∀ {s} i, P s → P (M.next s i)
  count : ∀ {s i}, P s → ¬ R s i → f (M.next s i) = f s - 1
  restart : ∀ {s i}, P s → R s i → f (M.next s i) = n
  /-- Once it is over, it does not start again. -/
  ended : ∀ {s i}, P s → R s i → f s ≠ 0

namespace Countdown

variable {M : Machine σ ι ο} {P : σ → Prop} {f : σ → ℕ} {R : σ → ι → Prop} {n : ℕ} {s : σ} {w : ℕ → ι}

/-- The count starts in a cycle. -/
def Starts (M : Machine σ ι ο) (R : σ → ι → Prop) (s : σ) (w : ℕ → ι) (c : ℕ) : Prop :=
  c = 0 ∨ ∃ r, c = r + 1 ∧ R (M.run s w r) (w r)

/-- The invariant holds in every cycle. -/
lemma invariant (h : Countdown M P f R n) (init : P s) (t : ℕ) : P (M.run s w t) :=
  Machine.run_invariant init (fun _ i => h.keeps i) t

/-- Without restarts the count goes down. -/
lemma counts (h : Countdown M P f R n) (init : P s) {c : ℕ} :
    ∀ k, (∀ x, c ≤ x → x < c + k → ¬ R (M.run s w x) (w x)) →
      f (M.run s w (c + k)) = f (M.run s w c) - k
  | 0, _ => rfl
  | k + 1, quiet => by
    have ih := counts h init k fun x lo hi => quiet x lo (Nat.lt_succ_of_lt hi)
    have step := h.count (h.invariant init (c + k)) (quiet (c + k) (Nat.le_add_right c k) (Nat.lt_succ_self _))
    rw [← Nat.add_assoc, Machine.run_succ, step, ih, Nat.sub_sub]

/-- When the count is over, it stays so. -/
lemma stays (h : Countdown M P f R n) (init : P s) {t u : ℕ} (le : t ≤ u) (zero : f (M.run s w t) = 0) :
    f (M.run s w u) = 0 := by
  induction le with
  | refl => exact zero
  | @step u le ih =>
    have inv := h.invariant (w := w) init u
    have quiet : ¬ R (M.run s w u) (w u) := fun again => h.ended inv again ih
    rw [Nat.succ_eq_add_one, Machine.run_succ, h.count inv quiet, ih]

/-- The count is full where it starts. -/
lemma starts (h : Countdown M P f R n) (init : P s) (full : f s = n) {c : ℕ} (start : Starts M R s w c) :
    f (M.run s w c) = n := by
  rcases start with rfl | ⟨r, rfl, again⟩
  · exact full
  · exact h.restart (h.invariant init r) again

/-- The count of any cycle goes back to its last start. -/
lemma last (h : Countdown M P f R n) (init : P s) (full : f s = n) (t : ℕ) :
    ∃ c, c ≤ t ∧ Starts M R s w c ∧ (∀ x, c ≤ x → x < t → ¬ R (M.run s w x) (w x)) ∧
      f (M.run s w t) = n - (t - c) := by
  induction t with
  | zero => exact ⟨0, Nat.le_refl 0, .inl rfl, fun x _ hi => absurd hi (Nat.not_lt_zero x), full⟩
  | succ t ih =>
    obtain ⟨c, le, start, quiet, left⟩ := ih
    by_cases again : R (M.run s w t) (w t)
    · have new : Starts M R s w (t + 1) := .inr ⟨t, rfl, again⟩
      refine ⟨t + 1, Nat.le_refl _, new, fun x lo hi => absurd hi (Nat.not_lt_of_le lo), ?_⟩
      rw [h.starts init full new, Nat.sub_self, Nat.sub_zero]
    · refine ⟨c, Nat.le_succ_of_le le, start, fun x lo hi => ?_, ?_⟩
      · rcases Nat.lt_succ_iff_lt_or_eq.mp hi with lt | rfl
        · exact quiet x lo lt
        · exact again
      · rw [Machine.run_succ, h.count (h.invariant init t) again, left, Nat.sub_sub, Nat.succ_sub le]

/-- The count is over if and only if it has not been started again for `n` edges. -/
theorem zero_iff (h : Countdown M P f R n) (init : P s) (full : f s = n) (t : ℕ) :
    f (M.run s w t) = 0 ↔
      ∃ c, c + n ≤ t ∧ Starts M R s w c ∧ ∀ x, c ≤ x → x < c + n → ¬ R (M.run s w x) (w x) := by
  constructor
  · intro zero
    obtain ⟨c, le, start, quiet, left⟩ := h.last (w := w) init full t
    have enough : c + n ≤ t := by omega
    exact ⟨c, enough, start, fun x lo hi => quiet x lo (Nat.lt_of_lt_of_le hi enough)⟩
  · rintro ⟨c, le, start, quiet⟩
    refine h.stays init le ?_
    rw [h.counts init n quiet, h.starts init full start, Nat.sub_self]

end Countdown

end Sync
