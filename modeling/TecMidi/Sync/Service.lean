import TecMidi.Sync.Machine

/-!
# Service

A machine that is served by inputs of several kinds, such as the turns of a processor. `Needs` says that
the kinds `need s`, in this order, are all that the state `s` waits for: inputs of other kinds may come in
between, and do not make it wait for more. A window of inputs that has these kinds as a sublist then leaves
nothing to wait for (`Needs.served`), and under a fair schedule there is such a window from every cycle on
(`Fair.window`). If all windows of `K` cycles are such windows and events are more than `K` cycles apart,
every event finds the machine with nothing to wait for (`Needs.punctual`).

`log_conserved` is about what waits in the meantime: if every cycle hands over what it takes from a queue
and queues what is put, then at any time what has been put has been got or is in the queue.
-/

namespace Sync

variable {σ ι ο τ ε : Type*}

/-- The kinds of the inputs of `n` cycles, from cycle `m` on. -/
def kinds (kind : ι → τ) (w : ℕ → ι) (m : ℕ) : ℕ → List τ
  | 0 => []
  | n + 1 => kind (w m) :: kinds kind w (m + 1) n

/-- A window is cut at any cycle. -/
lemma kinds_add (kind : ι → τ) (w : ℕ → ι) (m a b : ℕ) :
    kinds kind w m (a + b) = kinds kind w m a ++ kinds kind w (m + a) b := by
  induction a generalizing m with
  | zero => rw [Nat.zero_add, kinds, List.nil_append, Nat.add_zero]
  | succ a ih =>
    rw [Nat.succ_add, kinds, ih, kinds, List.cons_append, Nat.add_assoc, Nat.add_comm 1 a]

/-- The kinds of a stream of inputs are a stream themselves. -/
lemma kinds_id (kind : ι → τ) (w : ℕ → ι) (m n : ℕ) :
    kinds kind w m n = kinds id (fun t => kind (w t)) m n := by
  induction n generalizing m with
  | zero => rfl
  | succ n ih => rw [kinds, kinds, ih, id_eq]

/-- A periodic schedule has as many windows as its period. -/
lemma kinds_mod {kind : ι → τ} {w : ℕ → ι} {N : ℕ} (period : ∀ t, kind (w (t + N)) = kind (w t)) (m n : ℕ) :
    kinds kind w m n = kinds kind w (m % N) n := by
  have turn (m : ℕ) : kinds kind w (m + N) n = kinds kind w m n := by
    induction n generalizing m with
    | zero => rfl
    | succ n ih => rw [kinds, kinds, period, Nat.add_right_comm, ih]
  have turns (q m : ℕ) : kinds kind w (m + N * q) n = kinds kind w m n := by
    induction q with
    | zero => rfl
    | succ q ih => rw [Nat.mul_succ, ← Nat.add_assoc, turn, ih]
  rw [← turns (m / N) (m % N), Nat.mod_add_div]

/-- Inputs of this kind come again and again. -/
def Fair (kind : ι → τ) (w : ℕ → ι) (k : τ) : Prop := ∀ m, ∃ n, m ≤ n ∧ kind (w n) = k

/-- Fair kinds come in any order. -/
theorem Fair.window {kind : ι → τ} {w : ℕ → ι} {ks : List τ} (fair : ∀ k ∈ ks, Fair kind w k) (m : ℕ) :
    ∃ n, ks.Sublist (kinds kind w m n) := by
  induction ks generalizing m with
  | nil => exact ⟨0, .slnil⟩
  | cons k ks ih =>
    obtain ⟨a, le, eq⟩ := fair k List.mem_cons_self m
    obtain ⟨b, sub⟩ := ih (fun k mem => fair k (List.mem_cons_of_mem _ mem)) (a + 1)
    obtain ⟨c, rfl⟩ := Nat.exists_eq_add_of_le le
    refine ⟨c + (b + 1), ?_⟩
    rw [kinds_add, kinds, eq]
    apply List.Sublist.trans _ (List.sublist_append_right _ _)
    exact sub.cons_cons k

/-- From a state `s` on, as long as its cycles are `Ok`, a machine waits for inputs of the kinds `need s`. -/
structure Needs (M : Machine σ ι ο) (kind : ι → τ) (Ok : σ → ι → Prop) (need : σ → List τ) : Prop where
  keep : ∀ s i, Ok s i → (need (M.next s i)).Sublist (need s)
  serve : ∀ s i k ks, Ok s i → need s = k :: ks → kind i = k → (need (M.next s i)).Sublist ks

namespace Needs

variable {M : Machine σ ι ο} {kind : ι → τ} {Ok : σ → ι → Prop} {need : σ → List τ} {s : σ} {w : ℕ → ι}

/-- What a cycle leaves to be served. -/
lemma next (needs : Needs M kind Ok need) {i : ι} {ks : List τ} (ok : Ok s i)
    (sub : (need s).Sublist (kind i :: ks)) : (need (M.next s i)).Sublist ks := by
  generalize e : need s = ls at sub
  cases sub with
  | cons _ sub =>
    apply (needs.keep s i ok).trans
    rw [e]
    exact sub
  | cons_cons _ sub => exact (needs.serve s i _ _ ok e rfl).trans sub

/-- After a window with the kinds that it needs, a machine waits for nothing. -/
theorem served (needs : Needs M kind Ok need) {m n : ℕ}
    (ok : ∀ t, m ≤ t → t < m + n → Ok (M.run s w t) (w t))
    (window : (need (M.run s w m)).Sublist (kinds kind w m n)) : need (M.run s w (m + n)) = [] := by
  induction n generalizing m with
  | zero => exact List.eq_nil_of_sublist_nil window
  | succ n ih =>
    have now := ok m (Nat.le_refl m) (by omega)
    rw [show m + (n + 1) = m + 1 + n by omega]
    apply ih
    · intro t lo hi
      exact ok t (by omega) (by omega)
    · exact needs.next now window

/-- And it does not wait again while its cycles are `Ok`. -/
lemma stays (needs : Needs M kind Ok need) {m n : ℕ} (mn : m ≤ n)
    (ok : ∀ t, m ≤ t → t < n → Ok (M.run s w t) (w t)) (nil : need (M.run s w m) = []) :
    need (M.run s w n) = [] := by
  refine Machine.run_stays (P := fun s => need s = []) mn nil fun t lo hi nil => ?_
  have sub := needs.keep _ _ (ok t lo hi)
  rw [nil] at sub
  exact List.eq_nil_of_sublist_nil sub

end Needs

/-- A machine that waits for inputs of the kind `x` first and then of the kind `y`. -/
theorem Needs.phases {M : Machine σ ι ο} {kind : ι → τ} {Ok : σ → ι → Prop} {a b : σ → ℕ} {x y : τ}
    (keep : ∀ s i, Ok s i → a (M.next s i) ≤ a s ∧ b (M.next s i) ≤ b s)
    (first : ∀ s i, Ok s i → kind i = x → a s ≠ 0 → a (M.next s i) < a s)
    (second : ∀ s i, Ok s i → kind i = y → a s = 0 → b s ≠ 0 → b (M.next s i) < b s) :
    Needs M kind Ok fun s => List.replicate (a s) x ++ List.replicate (b s) y where
  keep s i ok := by
    obtain ⟨le, le'⟩ := keep s i ok
    exact (List.replicate_sublist_replicate x |>.mpr le).append (List.replicate_sublist_replicate y |>.mpr le')
  serve s i k ks ok e eq := by
    obtain ⟨le, le'⟩ := keep s i ok
    cases h : a s with
    | zero =>
      have zero : a (M.next s i) = 0 := by omega
      rw [h, List.replicate_zero, List.nil_append] at e
      rw [zero, List.replicate_zero, List.nil_append]
      cases h' : b s with
      | zero => simp [h'] at e
      | succ n =>
        rw [h', List.replicate_succ] at e
        cases e
        have lt := second s i ok eq h (by omega)
        exact List.replicate_sublist_replicate _ |>.mpr (by omega)
    | succ n =>
      rw [h, List.replicate_succ, List.cons_append] at e
      cases e
      have lt := first s i ok eq (by omega)
      apply List.Sublist.append
      · exact List.replicate_sublist_replicate _ |>.mpr (by omega)
      · exact List.replicate_sublist_replicate y |>.mpr le'

section Punctual

variable {M : Machine σ ι ο} {kind : ι → τ} {P : σ → Prop} {E : σ → ι → Prop} {need : σ → List τ}
  {full : List τ} {s : σ} {w : ℕ → ι} {K : ℕ}

/-- If every window of `K` cycles serves all that the machine may need, it needs nothing after `K` cycles
without an event. -/
lemma Needs.calm (needs : Needs M kind (fun s i => P s ∧ ¬ E s i) need)
    (bound : ∀ s, P s → (need s).Sublist full) (window : ∀ m, full.Sublist (kinds kind w m K)) {t : ℕ}
    (inv : ∀ x ≤ t, P (M.run s w x)) (le : K ≤ t)
    (quiet : ∀ x < t, E (M.run s w x) (w x) → x + K < t) : need (M.run s w t) = [] := by
  obtain ⟨m, rfl⟩ := Nat.exists_eq_add_of_le' le
  apply needs.served
  · intro x lo hi
    refine ⟨inv x (by omega), fun event => ?_⟩
    have late := quiet x hi event
    omega
  · exact (bound _ (inv m (by omega))).trans (window m)

/-- So an event always finds it with nothing to wait for, if events are more than `K` cycles apart. -/
theorem Needs.punctual (needs : Needs M kind (fun s i => P s ∧ ¬ E s i) need)
    (bound : ∀ s, P s → (need s).Sublist full) (window : ∀ m, full.Sublist (kinds kind w m K))
    (apart : ∀ t t', t < t' → E (M.run s w t) (w t) → E (M.run s w t') (w t') → t + K < t')
    (first : ∀ t, E (M.run s w t) (w t) → K ≤ t) (init : P s)
    (step : ∀ s i, P s → (E s i → need s = []) → P (M.next s i)) (t : ℕ) :
    P (M.run s w t) ∧ (E (M.run s w t) (w t) → need (M.run s w t) = []) ∧
      (K ≤ t → (∀ x < t, E (M.run s w x) (w x) → x + K < t) → need (M.run s w t) = []) := by
  have free {t : ℕ} (inv : ∀ x ≤ t, P (M.run s w x)) (event : E (M.run s w t) (w t)) :
      need (M.run s w t) = [] :=
    needs.calm bound window inv (first t event) fun x lt event' => apart x t lt event' event
  have inv (t : ℕ) : ∀ x ≤ t, P (M.run s w x) := by
    induction t with
    | zero =>
      intro x le
      obtain rfl : x = 0 := by omega
      exact init
    | succ t ih =>
      intro x le
      rcases Nat.le_or_eq_of_le_succ le with le | rfl
      · exact ih x le
      · exact step _ _ (ih t (Nat.le_refl t)) (free ih)
  exact ⟨inv t t (Nat.le_refl t), free (inv t), needs.calm bound window (inv t)⟩

end Punctual

section Queue

variable {put got : ℕ → Option ε} (queue : ℕ → List ε)

/-- What has been put has been got or is in the queue. -/
theorem log_conserved (init : queue 0 = [])
    (step : ∀ t, (got t).toList ++ queue (t + 1) = queue t ++ (put t).toList) (t : ℕ) :
    log got t ++ queue t = log put t := by
  induction t with
  | zero => exact init
  | succ t ih => rw [log_succ, log_succ, List.append_assoc, step, ← List.append_assoc, ih]

/-- If the queue is served whenever it is not empty, all that has been put is got. -/
theorem log_served (same : ∀ t, log got t ++ queue t = log put t)
    (served : ∀ m, queue m ≠ [] → ∃ n, m ≤ n ∧ got n ≠ none) (t : ℕ) :
    ∃ n, log put t <+: log got n := by
  have count (k : ℕ) (le : k ≤ (log put t).length) : ∃ n, t ≤ n ∧ k ≤ (log got n).length := by
    induction k with
    | zero => exact ⟨t, Nat.le_refl t, Nat.zero_le _⟩
    | succ k ih =>
      obtain ⟨m, tm, le_m⟩ := ih (by omega)
      by_cases empty : queue m = []
      · refine ⟨m, tm, Nat.le_trans le ?_⟩
        rw [← List.append_nil (log got m), ← empty, same]
        have pre := log_prefix put tm
        exact pre.length_le
      · obtain ⟨n, mn, some⟩ := served m empty
        obtain ⟨x, eq⟩ := Option.ne_none_iff_exists'.mp some
        refine ⟨n + 1, by omega, ?_⟩
        have pre := log_prefix got mn
        have mono := pre.length_le
        rw [log_succ, eq, List.length_append, Option.toList_some, List.length_singleton]
        omega
  obtain ⟨n, tn, le⟩ := count _ (Nat.le_refl _)
  have pre := log_prefix put tn
  refine ⟨n, List.prefix_of_prefix_length_le pre ?_ le⟩
  rw [← same n]
  exact List.prefix_append _ _

end Queue

end Sync
