import Mathlib.Algebra.Order.Interval.Finset.SuccPred
import Mathlib.Data.Nat.SuccPred
import Mathlib.Order.Interval.Finset.Nat
import TecMidi.Audio.Muestras
import TecMidi.Audio.SoundModule

/-!
# The stream of samples

`SoundModule` over many frames. From the first frame on, `ready` is pulsed once in each of them
(`ready_begins`), so the phase advances with the frames and not with the clock (`fase_tramas`).
`soundModule_corriente` is what follows for the words on the line: that of a frame is the entry of the table
at the sum of the steps of the frames before, times the velocity of its own.
-/

namespace SoundModule
open Sync Series

/-- Whether a frame begins can be read off the channel clock. -/
instance (d : ℕ → Bool) (t : ℕ) : Decidable (Begins d t) := inferInstanceAs (Decidable (_ ∧ _))

/-- The frames that begin from cycle `a` on and before cycle `b`. -/
def tramas (d : ℕ → Bool) (a b : ℕ) : Finset ℕ := {x ∈ Finset.Ico a b | Begins d x}

/-- What the frame that begins in cycle `x` adds to the phase. -/
def avance (w : ℕ → In) (x : ℕ) : ℕ :=
  if (w (x + 2)).enable = true then (SinDDS.delta (w (x + 2)).key).toNat else 0

/-- The word for a phase and a velocity. -/
def muestra (phase : ℕ) (enable : Bool) (vel : BitVec 7) : ℤ :=
  if enable = true then SinDDS.rom (phase / 256) * vel.toNat / 128 else 0

variable {w : ℕ → In} {d : ℕ → Bool} {a b : ℕ}

/-- No frame begins in an empty interval. -/
lemma tramas_self : tramas d a a = ∅ := by
  rw [tramas, Finset.Ico_self, Finset.filter_empty]

/-- The frames of an interval that is one cycle longer. -/
lemma tramas_succ (ab : a ≤ b) :
    tramas d a (b + 1) = if Begins d b then insert b (tramas d a b) else tramas d a b := by
  rw [tramas, ← Finset.insert_Ico_right_eq_Ico_add_one ab, Finset.filter_insert]
  rfl

/-- The frame that begins at the end of an interval is not one of them. -/
lemma notMem_tramas : b ∉ tramas d a b := by
  simp [tramas]

/-- From the first frame on there is a last one. -/
lemma exists_last (begins : Begins d a) (ab : a ≤ b) : ∃ x, Last d x (b + 1) := by
  obtain ⟨n, rfl⟩ := Nat.exists_eq_add_of_le ab
  clear ab
  induction n with
  | zero => exact ⟨a, begins, Nat.lt_succ_self a, fun x lo hi => by omega⟩
  | succ n ih =>
    by_cases now : Begins d (a + (n + 1))
    · exact ⟨_, now, Nat.lt_succ_self _, fun x lo hi => by omega⟩
    · obtain ⟨x, begins', lt, none⟩ := ih
      refine ⟨x, begins', by omega, fun y lo hi => ?_⟩
      rcases Nat.lt_succ_iff_lt_or_eq.mp hi with lt' | rfl
      · exact none y lo (by omega)
      · exact now

section Frames
variable (c : Clocks (bclk w) (daclrc w))
include c

/-- From the first frame on, `ready` is pulsed when a frame begins and at no other time. -/
lemma ready_begins (first : Begins (daclrc w) a) (ab : a ≤ b) :
    (salida w (b + 2)).ready = true ↔ Begins (daclrc w) b := by
  obtain ⟨x, last⟩ := exists_last first ab
  rw [(salida_auOut (b + 2)).2, AuOut.auOut_ready (w := entradas w) c last]
  constructor
  · intro eq
    obtain rfl : b = x := by omega
    exact last.1
  · intro begins
    rw [last.eq_of_begins begins]

/-- The phase is what the frames have added to it. -/
lemma fase_tramas (first : Begins (daclrc w) a) (ab : a ≤ b) :
    (fase w (b + 2)).toNat =
      ((fase w (a + 2)).toNat + ∑ x ∈ tramas (daclrc w) a b, avance w x) % 65536 := by
  induction b, ab using Nat.le_induction with
  | base =>
    have lt := (fase w (a + 2)).isLt
    rw [tramas_self, Finset.sum_empty]
    omega
  | succ b ab ih =>
    rw [show b + 1 + 2 = b + 2 + 1 from rfl, fase_succ, tramas_succ ab]
    simp only [ready_begins c first ab]
    by_cases begins : Begins (daclrc w) b
    · rw [if_pos begins, Finset.sum_insert notMem_tramas, avance]
      by_cases on : (w (b + 2)).enable = true
      · rw [if_pos ⟨begins, on⟩, if_pos on, BitVec.toNat_add, ih]
        omega
      · rw [if_neg fun h => on h.2, if_neg on, Nat.zero_add]
        exact ih
    · rw [if_neg begins, if_neg fun h => begins h.1]
      exact ih

omit c in
/-- The sample of a cycle. -/
lemma toInt_sample (t : ℕ) :
    (salida w t).sample.toInt = muestra (fase w t).toNat (w t).enable (w t).vel := by
  have sample : (salida w t).sample =
      SinDDS.sample (fase w t) (puertosDDS (soundModule.run reset w t) (w t)) := rfl
  have enable : (puertosDDS (soundModule.run reset w t) (w t)).enable = (w t).enable := rfl
  rw [sample, muestra]
  by_cases on : (w t).enable = true
  · rw [SinDDS.sample_on _ (enable.trans on), SinDDS.toInt_escala, SinDDS.toInt_datRom, if_pos on]
    rfl
  · rw [SinDDS.sample_off _ (by rwa [enable]), if_neg on]
    rfl

/-- Every frame carries the sample of its third cycle. -/
lemma lleva (a : ℕ) : Carries (bclk w) (daclrc w) (fun t => (salida w t).dacDat) (salida w (a + 2)).sample a := by
  intro t last rise short
  obtain ⟨before, after⟩ := AuOut.auOut_carries (w := entradas w) c a t last rise short
  exact ⟨(salida_auOut t).1.trans before, (salida_auOut (t + 1)).1.trans after⟩

/-- The word of every frame from the first one on: the entry of the table at the phase that the frames since
then have added up to, times the velocity over 128, rounded down; or 0 if the note is off. -/
theorem soundModule_corriente (first : Begins (daclrc w) a) (ab : a ≤ b) :
    ∃ v : BitVec 16, Carries (bclk w) (daclrc w) (fun t => (salida w t).dacDat) v b ∧
      v.toInt = muestra (((fase w (a + 2)).toNat + ∑ x ∈ tramas (daclrc w) a b, avance w x) % 65536)
        (w (b + 2)).enable (w (b + 2)).vel := by
  refine ⟨_, lleva c b, ?_⟩
  rw [toInt_sample, fase_tramas c first ab]

/-- While a note is held, the words of its frames are those of a sine of its key and velocity. -/
lemma corriente_sostenida {k v : BitVec 7} (first : Begins (daclrc w) a) (ab : a ≤ b)
    (held : ∀ x, a ≤ x → x ≤ b → (w (x + 2)).enable = true ∧ (w (x + 2)).key = k ∧ (w (x + 2)).vel = v) :
    ∃ u : BitVec 16, Carries (bclk w) (daclrc w) (fun t => (salida w t).dacDat) u b ∧
      u.toInt = muestra (((fase w (a + 2)).toNat +
        (tramas (daclrc w) a b).card * (SinDDS.delta k).toNat) % 65536) true v := by
  have steps : ∑ x ∈ tramas (daclrc w) a b, avance w x =
      (tramas (daclrc w) a b).card * (SinDDS.delta k).toNat := by
    refine Finset.sum_const_nat fun x mem => ?_
    obtain ⟨mem, -⟩ := Finset.mem_filter.mp mem
    obtain ⟨lo, hi⟩ := Finset.mem_Ico.mp mem
    obtain ⟨on, key, -⟩ := held x lo (Nat.le_of_lt hi)
    rw [avance, if_pos on, key]
  obtain ⟨on, -, vel⟩ := held b ab (Nat.le_refl b)
  refine ⟨_, lleva c b, ?_⟩
  rw [toInt_sample, fase_tramas c first ab, steps, on, vel]

end Frames

/-- The second frame of `maestro`. -/
theorem soundModule_corriente_maestro : ∃ v : BitVec 16,
    Carries (bclk maestro) (daclrc maestro) (fun t => (salida maestro t).dacDat) v 407 ∧
      v.toInt = muestra (((fase maestro (135 + 2)).toNat +
        ∑ x ∈ tramas (daclrc maestro) 135 407, avance maestro x) % 65536)
        (maestro (407 + 2)).enable (maestro (407 + 2)).vel :=
  soundModule_corriente maestro_clocks (a := 135) (b := 407) ⟨rfl, rfl⟩ (by decide)

end SoundModule
