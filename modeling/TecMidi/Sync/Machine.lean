import TecMidi.Sync.Stream

/-!
# Clocked machines

A `Machine` is a clocked circuit: `next` is its rising edge, `out` the outputs of a cycle. It is run
from a state on an input stream (`run`), which gives the stream of its outputs (`wave`). `Machine.seq`
connects the outputs of one machine to the inputs of a second one on the same clock.

Circuits are modelled in one way: `St` holds the registers and the state of the control unit, `In` and
`Out` the signals of the ports; `es` is the next state of the control unit, `clk` a rising edge while the
reset is inactive, and `reset` the state that the asynchronous reset forces.

`Transducer` is what an event-driven component is for: it reads tokens and may answer each one with an
event. `Transducer.simulated` is the proof rule that connects the two: a run that keeps a relation to
the transducer's state, up to a list of events it still owes, emits the transducer's answers.
-/

namespace Sync

variable {σ σ' ι κ κ' ο α β ε : Type*}

/-- A clocked circuit. -/
structure Machine (σ ι ο : Type*) where
  /-- The state after the rising edge that ends a cycle. -/
  next : σ → ι → σ
  /-- The outputs during a cycle. -/
  out : σ → ι → ο

namespace Machine

/-- The state in every cycle of a run from `s` on the inputs `w`. -/
def run (M : Machine σ ι ο) (s : σ) (w : ℕ → ι) : ℕ → σ
  | 0 => s
  | t + 1 => M.next (M.run s w t) (w t)

/-- The outputs in every cycle of a run. -/
def wave (M : Machine σ ι ο) (s : σ) (w : ℕ → ι) (t : ℕ) : ο := M.out (M.run s w t) (w t)

variable (M : Machine σ ι ο) (s : σ) (w : ℕ → ι)

/-- A run begins in its initial state. -/
@[simp] lemma run_zero : M.run s w 0 = s := rfl

/-- The state after one more edge. -/
lemma run_succ (t : ℕ) : M.run s w (t + 1) = M.next (M.run s w t) (w t) := rfl

/-- A run is cut at any cycle. -/
lemma run_add (m n : ℕ) : M.run s w (m + n) = M.run (M.run s w m) (shift m w) n := by
  induction n with
  | zero => rfl
  | succ n ih => rw [← Nat.add_assoc, run_succ, ih, run_succ, shift_apply]

/-- The outputs of a run are those of its rest. -/
lemma wave_add (m n : ℕ) : M.wave s w (m + n) = M.wave (M.run s w m) (shift m w) n := by
  rw [wave, wave, run_add, shift_apply]

/-- The events of a run, seen from cycle `n` on. -/
lemma shift_events (f : ο → Option ε) (n : ℕ) :
    shift n (fun t => f (M.wave s w t)) = fun t => f (M.wave (M.run s w n) (shift n w) t) := by
  funext t
  rw [shift_apply, wave_add]

/-- The log of a run is cut at any cycle. -/
lemma log_wave_add (f : ο → Option ε) (m n : ℕ) :
    log (fun t => f (M.wave s w t)) (m + n) =
      log (fun t => f (M.wave s w t)) m ++
        log (fun t => f (M.wave (M.run s w m) (shift m w) t)) n := by
  rw [log_add, shift_events]

variable {M s w}

/-- What holds at first and is kept by every edge holds in every cycle of every run. -/
theorem run_invariant {P : σ → Prop} (init : P s) (step : ∀ s i, P s → P (M.next s i)) (t : ℕ) :
    P (M.run s w t) := by
  induction t with
  | zero => exact init
  | succ t ih => exact step _ _ ih

/-- What holds in a cycle and is kept by the edges of an interval holds at its end. -/
lemma run_stays {P : σ → Prop} {m n : ℕ} (mn : m ≤ n) (init : P (M.run s w m))
    (step : ∀ t, m ≤ t → t < n → P (M.run s w t) → P (M.next (M.run s w t) (w t))) :
    P (M.run s w n) := by
  obtain ⟨k, rfl⟩ := Nat.exists_eq_add_of_le mn
  induction k with
  | zero => exact init
  | succ k ih =>
    rw [← Nat.add_assoc, run_succ]
    refine step (m + k) (Nat.le_add_right m k) (Nat.lt_succ_self _) ?_
    exact ih (Nat.le_add_right m k) fun t lo hi => step t lo (Nat.lt_succ_of_lt hi)

/-- The inputs of `M` are driven by `f`. -/
def drive (f : κ → ι) (M : Machine σ ι ο) : Machine σ κ ο where
  next s i := M.next s (f i)
  out s i := M.out s (f i)

/-- A driven machine runs as the machine does on what drives it. -/
lemma run_drive (f : κ → ι) (M : Machine σ ι ο) (s : σ) (w : ℕ → κ) (t : ℕ) :
    (M.drive f).run s w t = M.run s (fun t => f (w t)) t := by
  induction t with
  | zero => rfl
  | succ t ih =>
    rw [run_succ, ih]
    rfl

/-- The outputs of `M`, wired by `f`, drive the inputs of `N` on the same clock. -/
def seq (M : Machine σ ι κ) (f : κ → κ') (N : Machine σ' κ' ο) : Machine (σ × σ') ι ο where
  next s i := (M.next s.1 i, N.next s.2 (f (M.out s.1 i)))
  out s i := N.out s.2 (f (M.out s.1 i))

/-- In a series connection each machine runs on its own inputs. -/
lemma run_seq (M : Machine σ ι κ) (f : κ → κ') (N : Machine σ' κ' ο) (s : σ) (s' : σ') (w : ℕ → ι)
    (t : ℕ) : (M.seq f N).run (s, s') w t = (M.run s w t, N.run s' (fun t => f (M.wave s w t)) t) := by
  induction t with
  | zero => rfl
  | succ t ih => rw [run_succ, ih]; rfl

/-- The outputs of a series connection are those of its second machine. -/
lemma wave_seq (M : Machine σ ι κ) (f : κ → κ') (N : Machine σ' κ' ο) (s : σ) (s' : σ')
    (w : ℕ → ι) : (M.seq f N).wave (s, s') w = N.wave s' (fun t => f (M.wave s w t)) := by
  funext t
  rw [wave, run_seq]
  rfl

end Machine

/-- A component that reads tokens and may answer each one with an event. -/
structure Transducer (α β ε : Type*) where
  /-- The state after a token. -/
  next : α → β → α
  /-- The answer to a token. -/
  answer : α → β → Option ε

namespace Transducer

variable (T : Transducer α β ε)

/-- The state after a list of tokens. -/
def after (a : α) (bs : List β) : α := bs.foldl T.next a

/-- The answers to a list of tokens. -/
def answers (a : α) : List β → List ε
  | [] => []
  | b :: bs => (T.answer a b).toList ++ answers (T.next a b) bs

/-- A list without tokens leaves the state as it is. -/
@[simp] lemma after_nil (a : α) : T.after a [] = a := rfl

/-- The first token is read first. -/
@[simp] lemma after_cons (a : α) (b : β) (bs : List β) :
    T.after a (b :: bs) = T.after (T.next a b) bs := rfl

/-- The tokens of one list after those of another. -/
lemma after_append (a : α) (bs cs : List β) :
    T.after a (bs ++ cs) = T.after (T.after a bs) cs := List.foldl_append

/-- A list without tokens has no answers. -/
@[simp] lemma answers_nil (a : α) : T.answers a [] = [] := rfl

/-- The answer to the first token comes first. -/
@[simp] lemma answers_cons (a : α) (b : β) (bs : List β) :
    T.answers a (b :: bs) = (T.answer a b).toList ++ T.answers (T.next a b) bs := rfl

/-- The answers to two lists of tokens in a row. -/
lemma answers_append (a : α) (bs cs : List β) :
    T.answers a (bs ++ cs) = T.answers a bs ++ T.answers (T.after a bs) cs := by
  induction bs generalizing a with
  | nil => rfl
  | cons b bs ih =>
    rw [List.cons_append, answers_cons, ih, answers_cons, after_cons, List.append_assoc]

/-- A run that receives the tokens `tok`, emits the events `ev` and keeps `R` to the transducer's
state and to the events `p` it still owes emits the transducer's answers, except for those it owes. -/
theorem simulated {tok : ℕ → Option β} {ev : ℕ → Option ε} {R : ℕ → α → List ε → Prop} {a : α}
    (init : R 0 a [])
    (step : ∀ t a p, R t a p → ∃ p', R (t + 1) (T.after a (tok t).toList) p' ∧
      p ++ T.answers a (tok t).toList = (ev t).toList ++ p') (t : ℕ) :
    ∃ p, R t (T.after a (log tok t)) p ∧ T.answers a (log tok t) = log ev t ++ p := by
  induction t with
  | zero => exact ⟨[], init, rfl⟩
  | succ t ih =>
    obtain ⟨p, rel, owed⟩ := ih
    obtain ⟨p', rel', owed'⟩ := step t _ p rel
    refine ⟨p', ?_, ?_⟩
    · rw [log_succ, after_append]
      exact rel'
    · rw [log_succ, log_succ, answers_append, owed, List.append_assoc, owed', List.append_assoc]

end Transducer

end Sync
