import TecMidi.Sync.Machine

/-!
# Delivery by pulses

One component hands a datum to another by a one-cycle pulse on a `ready` signal. There is no
acknowledgement, so the reader relies on `Delivers`: a datum stays for one cycle after its pulse, and
the next pulse comes at least four cycles later. A reader that is busy for at most three cycles after a
pulse (`Since`) then misses nothing (`Delivers.silent`).
-/

namespace Sync

variable {β : Type*} {ready : ℕ → Bool} {data : ℕ → β} {n t : ℕ}

/-- The datum delivered in a cycle, if any. -/
def pulse (ready : Bool) (x : β) : Option β := if ready = true then some x else none

/-- A pulse carries its datum. -/
@[simp] lemma pulse_true (x : β) : pulse true x = some x := rfl

/-- Without a pulse there is none. -/
@[simp] lemma pulse_false (x : β) : pulse false x = none := rfl

/-- With the pulse the datum is delivered. -/
lemma pulse_ready {r : Bool} (h : r = true) (x : β) : pulse r x = some x := if_pos h

/-- Without a pulse nothing is delivered. -/
lemma pulse_silent {r : Bool} (h : r = false) (x : β) : pulse r x = none := by rw [h, pulse_false]

/-- Pulses are at least four cycles apart, and a datum stays for a cycle after its pulse. -/
structure Delivers (ready : ℕ → Bool) (data : ℕ → β) : Prop where
  apart : ∀ t, ready t = true →
    ready (t + 1) = false ∧ ready (t + 2) = false ∧ ready (t + 3) = false
  stays : ∀ t, ready t = true → data (t + 1) = data t

/-- There was a pulse `n` cycles before cycle `t`. -/
def Since (ready : ℕ → Bool) (n t : ℕ) : Prop := ∃ u, t = u + n ∧ ready u = true

/-- No datum arrives in the three cycles after a pulse. -/
lemma Delivers.silent (d : Delivers ready data) (since : Since ready n t) (one : 1 ≤ n)
    (three : n ≤ 3) : ready t = false := by
  obtain ⟨u, rfl, pulse⟩ := since
  obtain ⟨a1, a2, a3⟩ := d.apart u pulse
  obtain rfl | rfl | rfl : n = 1 ∨ n = 2 ∨ n = 3 := by omega
  · exact a1
  · exact a2
  · exact a3

/-- The pulse is one cycle further back. -/
lemma Since.succ (since : Since ready n t) : Since ready (n + 1) (t + 1) := by
  obtain ⟨u, rfl, pulse⟩ := since
  exact ⟨u, rfl, pulse⟩

/-- A pulse is one cycle old after its edge. -/
lemma Delivers.since_one (_ : Delivers ready data) (h : ready t = true) : Since ready 1 (t + 1) := ⟨t, rfl, h⟩

/-- After three silent cycles there is no pulse to be busy with. -/
lemma not_since (quiet : ∀ u < t, t ≤ u + 3 → ready u = false) (one : 1 ≤ n) (three : n ≤ 3) :
    ¬ Since ready n t := by
  rintro ⟨u, rfl, pulse⟩
  exact absurd pulse (by simp [quiet u (by omega) (by omega)])

end Sync
