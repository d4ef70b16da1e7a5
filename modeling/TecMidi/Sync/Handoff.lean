import TecMidi.Sync.Machine

/-!
# Handing events over

A machine into which events are `put` and out of which they are `got`, in the cycles that its outputs
say, hands them over exactly once if, whenever only quiet inputs follow, what has been put is what has
been got so far and what is got from then on (`ExactlyOnce`): nothing is lost, repeated, altered or
reordered.

`Owed` is the proof rule. A function `owed` of the state says which events the machine hands over under
quiet inputs; then `ExactlyOnce` is an equation about the present (`exactlyOnce_iff`), and a whole run
hands over exactly once if and only if every step keeps that equation (`exactlyOnce_run_iff`).
-/

namespace Sync

variable {σ ι ο ε : Type*}

/-- From cycle `t` on, under quiet inputs, exactly what has been put and not yet got will be got. -/
def ExactlyOnce (M : Machine σ ι ο) (put got : ο → Option ε) (quiet : ι) (s : σ) (w : ℕ → ι)
    (t : ℕ) : Prop :=
  ∃ n, ∀ m, n ≤ m →
    log (fun t => got (M.wave s w t)) t ++
      log (fun u => got (M.wave (M.run s w t) (fun _ => quiet) u)) m =
    log (fun t => put (M.wave s w t)) t

/-- Under quiet inputs the machine hands over the events `owed`, within `rank` cycles. -/
structure Owed (M : Machine σ ι ο) (got : ο → Option ε) (quiet : ι) (owed : σ → List ε)
    (rank : σ → ℕ) : Prop where
  keep : ∀ s, (got (M.out s quiet)).toList ++ owed (M.next s quiet) = owed s
  progress : ∀ s, owed s ≠ [] → rank (M.next s quiet) < rank s

variable {M : Machine σ ι ο} {put got : ο → Option ε} {quiet : ι} {owed : σ → List ε} {rank : σ → ℕ}
variable {s : σ} {w : ℕ → ι} {t : ℕ}

namespace Owed

/-- At any time, what has been handed over and what is still owed make up what was owed. -/
lemma log_append (h : Owed M got quiet owed rank) (s : σ) (n : ℕ) :
    log (fun t => got (M.wave s (fun _ => quiet) t)) n ++ owed (M.run s (fun _ => quiet) n) =
      owed s := by
  induction n with
  | zero => rfl
  | succ n ih =>
    rw [log_succ, Machine.run_succ, List.append_assoc, Machine.wave, h.keep]
    exact ih

/-- A machine that owes nothing takes nothing by itself. -/
lemma next_nil (h : Owed M got quiet owed rank) (hs : owed s = []) : owed (M.next s quiet) = [] :=
  (List.append_eq_nil_iff.mp ((h.keep s).trans hs)).2

/-- After `rank` cycles nothing is owed. -/
lemma run_nil (h : Owed M got quiet owed rank) (s : σ) {n : ℕ} (hn : rank s ≤ n) :
    owed (M.run s (fun _ => quiet) n) = [] := by
  have bound (n : ℕ) : owed (M.run s (fun _ => quiet) n) = [] ∨
      rank (M.run s (fun _ => quiet) n) + n ≤ rank s := by
    induction n with
    | zero => exact .inr (Nat.le_refl _)
    | succ n ih =>
      rcases ih with nil | le
      · exact .inl (h.next_nil nil)
      · by_cases nil : owed (M.run s (fun _ => quiet) n) = []
        · exact .inl (h.next_nil nil)
        · have lt := h.progress _ nil
          rw [Machine.run_succ]
          exact .inr (by omega)
  rcases bound n with nil | le
  · exact nil
  · by_contra ne
    have lt := h.progress _ ne
    omega

/-- Under quiet inputs the machine hands over exactly the events owed. -/
theorem emits (h : Owed M got quiet owed rank) (s : σ) :
    Emits (fun t => got (M.wave s (fun _ => quiet) t)) (owed s) (rank s) := fun n hn => by
  rw [← h.log_append s n, h.run_nil s hn, List.append_nil]

/-- Handing over exactly once is an equation about the present state. -/
theorem exactlyOnce_iff (h : Owed M got quiet owed rank) :
    ExactlyOnce M put got quiet s w t ↔
      log (fun t => got (M.wave s w t)) t ++ owed (M.run s w t) =
        log (fun t => put (M.wave s w t)) t := by
  constructor
  · rintro ⟨n, hn⟩
    rw [← h.emits _ (max n (rank (M.run s w t))) (Nat.le_max_right _ _)]
    exact hn _ (Nat.le_max_left _ _)
  · intro eq
    exact ⟨rank (M.run s w t), fun m hm => by rw [h.emits _ m hm, eq]⟩

/-- A run hands over exactly once, at any time, if and only if all its steps do. -/
theorem exactlyOnce_run_iff (h : Owed M got quiet owed rank) {Inv : σ → Prop} {Safe : σ → ι → Prop}
    (init : Inv s) (empty : owed s = []) (inv : ∀ s i, Inv s → Safe s i → Inv (M.next s i))
    (step : ∀ s i, Inv s → (Safe s i ↔
      (got (M.out s i)).toList ++ owed (M.next s i) = owed s ++ (put (M.out s i)).toList)) :
    (∀ t, ExactlyOnce M put got quiet s w t) ↔ ∀ t, Safe (M.run s w t) (w t) := by
  -- one step, from a state in which the equation holds
  have one {t : ℕ} (hi : Inv (M.run s w t))
      (eq : log (fun t => got (M.wave s w t)) t ++ owed (M.run s w t) =
        log (fun t => put (M.wave s w t)) t) :
      Safe (M.run s w t) (w t) ↔
        log (fun t => got (M.wave s w t)) (t + 1) ++ owed (M.run s w (t + 1)) =
          log (fun t => put (M.wave s w t)) (t + 1) := by
    rw [log_succ, log_succ, Machine.run_succ, List.append_assoc, ← eq, List.append_assoc,
      List.append_cancel_left_eq]
    exact step _ _ hi
  constructor
  · intro always t
    have eq (t : ℕ) := h.exactlyOnce_iff.mp (always t)
    have hi : Inv (M.run s w t) := by
      induction t with
      | zero => exact init
      | succ t ih => exact inv _ _ ih ((one ih (eq t)).mpr (eq (t + 1)))
    exact (one hi (eq t)).mpr (eq (t + 1))
  · intro safe t
    have hi (t : ℕ) : Inv (M.run s w t) := by
      induction t with
      | zero => exact init
      | succ t ih => exact inv _ _ ih (safe t)
    refine h.exactlyOnce_iff.mpr ?_
    induction t with
    | zero => exact empty
    | succ t ih => exact (one (hi t) ih).mp (safe t)

end Owed

end Sync
