import Mathlib.Data.Nat.Notation
import Mathlib.Tactic.Common

/-!
# Streams and their logs

A signal of a clocked system is a stream `ℕ → α`: its value in every clock cycle. `shift n w` is the
stream seen from cycle `n` on. A stream of optional events has a `log`: the events of the first `n`
cycles, in order. The lemmas of this file say how logs are cut at a cycle (`log_add`), when they are
empty (`log_eq_nil`) and when they do not depend on the horizon (`log_of_quiet`, `Emits`).
-/

namespace Sync

variable {α β ε : Type*}

/-- The stream `w` seen from cycle `n` on. -/
def shift (n : ℕ) (w : ℕ → α) : ℕ → α := fun t => w (n + t)

/-- Cycle `t` from cycle `n` on is cycle `n + t`. -/
@[simp] lemma shift_apply (n t : ℕ) (w : ℕ → α) : shift n w t = w (n + t) := rfl

/-- Two shifts are one by both. -/
lemma shift_shift (m n : ℕ) (w : ℕ → α) : shift m (shift n w) = shift (n + m) w := by
  funext t
  rw [shift_apply, shift_apply, shift_apply, Nat.add_assoc]

/-- The events of the first `n` cycles of `e`, in order. -/
def log (e : ℕ → Option ε) : ℕ → List ε
  | 0 => []
  | n + 1 => log e n ++ (e n).toList

/-- Nothing is emitted in no cycle. -/
@[simp] lemma log_zero (e : ℕ → Option ε) : log e 0 = [] := rfl

/-- The log of one more cycle. -/
lemma log_succ (e : ℕ → Option ε) (n : ℕ) : log e (n + 1) = log e n ++ (e n).toList := rfl

/-- A log is cut at any cycle. -/
lemma log_add (e : ℕ → Option ε) (m n : ℕ) : log e (m + n) = log e m ++ log (shift m e) n := by
  induction n with
  | zero => rw [Nat.add_zero, log_zero, List.append_nil]
  | succ n ih => rw [← Nat.add_assoc, log_succ, ih, log_succ, shift_apply, List.append_assoc]

/-- Silence is not logged. -/
lemma log_eq_nil {e : ℕ → Option ε} {n : ℕ} (h : ∀ t < n, e t = none) : log e n = [] := by
  induction n with
  | zero => rfl
  | succ n ih =>
    rw [log_succ, ih fun t ht => h t (Nat.lt_succ_of_lt ht), h n (Nat.lt_succ_self n)]
    rfl

/-- Silence from cycle `m` to cycle `n` leaves the log as it was. -/
lemma log_of_quiet {e : ℕ → Option ε} {m n : ℕ} (mn : m ≤ n)
    (h : ∀ t, m ≤ t → t < n → e t = none) : log e n = log e m := by
  obtain ⟨k, rfl⟩ := Nat.exists_eq_add_of_le mn
  have quiet : log (shift m e) k = [] :=
    log_eq_nil fun t ht => h (m + t) (Nat.le_add_right m t) (Nat.add_lt_add_left ht m)
  rw [log_add, quiet, List.append_nil]

/-- The log of some cycles begins the log of more. -/
lemma log_prefix (e : ℕ → Option ε) {m n : ℕ} (mn : m ≤ n) : log e m <+: log e n := by
  obtain ⟨k, rfl⟩ := Nat.exists_eq_add_of_le mn
  rw [log_add]
  exact List.prefix_append _ _

/-- Events that are `d` cycles apart are not too many. -/
lemma length_log_lt {e : ℕ → Option ε} {d : ℕ} (pos : 0 < d)
    (apart : ∀ t t', t < t' → e t ≠ none → e t' ≠ none → t + d ≤ t') (n : ℕ) :
    (log e n).length * d < n + d := by
  induction n using Nat.strongRecOn with
  | ind n ih =>
    cases n with
    | zero => rwa [log_zero, List.length_nil, Nat.zero_mul, Nat.zero_add]
    | succ n =>
      cases now : e n with
      | none =>
        have before := ih n (Nat.lt_succ_self n)
        rw [log_succ, now, Option.toList_none, List.append_nil]
        omega
      | some x =>
        -- the event before that one is `d` cycles back
        have quiet : log e n = log e (n + 1 - d) := by
          apply log_of_quiet (by omega)
          intro t ge lt
          by_contra some
          have far := apart t n lt some (by simp [now])
          omega
        have before := ih (n + 1 - d) (by omega)
        rw [log_succ, now, Option.toList_some, List.length_append, List.length_singleton, Nat.add_mul,
          Nat.one_mul, quiet]
        rcases Nat.le_total d (n + 1) with le | le
        · omega
        · rw [Nat.sub_eq_zero_of_le le, log_zero, List.length_nil]
          omega

/-- The log of the same events in another form. -/
lemma log_map (e : ℕ → Option α) (f : α → β) (n : ℕ) :
    log (fun t => (e t).map f) n = (log e n).map f := by
  induction n with
  | zero => rfl
  | succ n ih =>
    rw [log_succ, log_succ, ih, List.map_append]
    cases e n with
    | none => rfl
    | some x => rfl

/-- What a log holds was emitted in one of its cycles. -/
lemma mem_log {e : ℕ → Option ε} {n : ℕ} {x : ε} : x ∈ log e n ↔ ∃ t < n, e t = some x := by
  induction n with
  | zero => simp
  | succ n ih =>
    rw [log_succ, List.mem_append, ih, Option.mem_toList]
    constructor
    · rintro (⟨t, ht, e⟩ | e)
      · exact ⟨t, Nat.lt_succ_of_lt ht, e⟩
      · exact ⟨n, Nat.lt_succ_self n, e⟩
    · rintro ⟨t, ht, e⟩
      rcases Nat.lt_succ_iff_lt_or_eq.mp ht with lt | rfl
      · exact .inl ⟨t, lt, e⟩
      · exact .inr e

/-- The events of `e` are exactly `xs`, and all of them come before cycle `n`. -/
def Emits (e : ℕ → Option ε) (xs : List ε) (n : ℕ) : Prop := ∀ m, n ≤ m → log e m = xs

/-- After these there are none. -/
lemma Emits.quiet {e : ℕ → Option ε} {xs : List ε} {n t : ℕ} (h : Emits e xs n) (le : n ≤ t) : e t = none := by
  have same := (h (t + 1) (Nat.le_succ_of_le le)).trans (h t le).symm
  rw [log_succ, List.append_right_eq_self] at same
  exact Option.toList_eq_nil_iff.mp same

end Sync
