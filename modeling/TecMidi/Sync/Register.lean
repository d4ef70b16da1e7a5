import Mathlib.Data.Nat.Notation
import Mathlib.Tactic.Common

/-!
# Registers and flags over time

What a register with a load signal holds (`Latches`), and when a flag that is set and cleared is up
(`Flag`), in terms of the cycles in which these signals have been active. A set wins over a clear.
-/

namespace Sync

variable {α : Type*}

/-- The register `reg` loads `x` in the cycles with `ld`, and keeps its value otherwise. -/
def Latches (reg : ℕ → α) (ld : ℕ → Prop) (x : ℕ → α) : Prop :=
  ∀ t, (ld t → reg (t + 1) = x t) ∧ (¬ ld t → reg (t + 1) = reg t)

namespace Latches

variable {reg x : ℕ → α} {ld : ℕ → Prop} (latches : Latches reg ld x)

include latches

/-- Without a load the register keeps its content. -/
lemma keeps {m n : ℕ} (mn : m ≤ n) (quiet : ∀ v, m ≤ v → v < n → ¬ ld v) : reg n = reg m := by
  induction mn with
  | refl => rfl
  | @step n mn ih =>
    rw [(latches n).2 (quiet n mn (Nat.lt_succ_self n)), ih fun v lo hi => quiet v lo (Nat.lt_succ_of_lt hi)]

/-- It holds what was loaded last. -/
lemma latest {t u : ℕ} (lt : u < t) (loaded : ld u) (quiet : ∀ v, u < v → v < t → ¬ ld v) :
    reg t = x u := by
  rw [latches.keeps (show u + 1 ≤ t from lt) fun v lo hi => quiet v lo hi]
  exact (latches u).1 loaded

end Latches

/-- A flag that is down at first, set by `set` and cleared by `clr`, where `set` wins. -/
structure Flag (b set clr : ℕ → Prop) : Prop where
  zero : ¬ b 0
  step : ∀ t, b (t + 1) ↔ set t ∨ b t ∧ ¬ clr t

/-- It is up if it has been set and not been cleared since. -/
lemma Flag.up_iff {b set clr : ℕ → Prop} (flag : Flag b set clr) (t : ℕ) :
    b t ↔ ∃ u < t, set u ∧ ∀ v, u < v → v < t → clr v → set v := by
  induction t with
  | zero =>
    constructor
    · intro up
      exact absurd up flag.zero
    · rintro ⟨u, lt, -⟩
      exact absurd lt (Nat.not_lt_zero u)
  | succ t ih =>
    rw [flag.step, ih]
    constructor
    · rintro (now | ⟨⟨u, lt, was, since⟩, kept⟩)
      · refine ⟨t, Nat.lt_succ_self t, now, ?_⟩
        intro v lo hi
        omega
      · refine ⟨u, Nat.lt_succ_of_lt lt, was, ?_⟩
        intro v lo hi cleared
        rcases Nat.lt_succ_iff_lt_or_eq.mp hi with before | rfl
        · exact since v lo before cleared
        · exact absurd cleared kept
    · rintro ⟨u, lt, was, since⟩
      by_cases now : set t
      · exact .inl now
      · right
        have before : u < t := by
          rcases Nat.lt_succ_iff_lt_or_eq.mp lt with before | rfl
          · exact before
          · exact absurd was now
        refine ⟨⟨u, before, was, fun v lo hi => since v lo (Nat.lt_succ_of_lt hi)⟩, ?_⟩
        intro cleared
        exact now (since t before (Nat.lt_succ_self t) cleared)

end Sync
