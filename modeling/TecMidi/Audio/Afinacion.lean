import Mathlib.Analysis.SpecialFunctions.Pow.Real
import TecMidi.Audio.Corriente
import TecMidi.Audio.Seno

/-!
# The tone of a key

What `SoundModule` is for: a sine of the frequency of the key. With the codec on a clock of 12.5 MHz there are
12500000 / 1536 frames a second, and each of the twelve increments is the nearest one to the frequency of its
key in the tempered scale (`delta_afinada`). The word for a phase and a velocity is a sine of that amplitude,
but for the eight bits of the phase that the table does not see and for the rounding (`muestra_seno`).
`soundModule_seno` is what follows for the frames of a note that is held.
-/

namespace SinDDS
open Real

/-- The frequency of a key in the tempered scale. -/
noncomputable def temperada (k : ℕ) : ℝ := 440 * 2 ^ (((k : ℝ) - 69) / 12)

/-- The frames in a second. -/
noncomputable def muestreo : ℝ := 12500000 / 1536

/-- The increments, compared with the frequencies through their twelfth powers. -/
lemma delta_doce : ∀ k : BitVec 7, 60 ≤ k.toNat → k.toNat ≤ 71 →
    ((2 * ((delta k).toNat : ℤ) - 1) * 12500000) ^ 12 * 2 ^ 9 <
        (2 * 65536 * 1536) ^ 12 * (440 ^ 12 * 2 ^ (k.toNat - 60)) ∧
      (2 * 65536 * 1536) ^ 12 * (440 ^ 12 * 2 ^ (k.toNat - 60)) <
        ((2 * ((delta k).toNat : ℤ) + 1) * 12500000) ^ 12 * 2 ^ 9 := by
  decide +kernel

/-- The tempered frequencies are twelfth roots: the twelfth power of one of them is rational. -/
lemma temperada_doce {k : ℕ} (lo : 60 ≤ k) : temperada k ^ 12 * 2 ^ 9 = 440 ^ 12 * 2 ^ (k - 60) := by
  have root : ((2 : ℝ) ^ (((k : ℝ) - 69) / 12)) ^ 12 = 2 ^ ((k : ℝ) - 69) := by
    rw [← rpow_natCast, ← rpow_mul (by norm_num)]
    congr 1
    push_cast
    ring
  have octave : (2 : ℝ) ^ ((k : ℝ) - 69) * 2 ^ 9 = 2 ^ (k - 60) := by
    rw [← rpow_natCast, ← rpow_natCast, ← rpow_add (by norm_num), Nat.cast_sub lo]
    congr 1
    push_cast
    ring
  rw [temperada, mul_pow, root, mul_assoc, octave]

/-- Each increment is the nearest one. -/
theorem delta_afinada {k : BitVec 7} (lo : 60 ≤ k.toNat) (hi : k.toNat ≤ 71) :
    |((delta k).toNat : ℝ) / 65536 - temperada k.toNat / muestreo| < 1 / 131072 := by
  have pos : 0 < temperada k.toNat := by
    rw [temperada]
    positivity
  have powers : ((2 * ((delta k).toNat : ℝ) - 1) * 12500000) ^ 12 * 2 ^ 9 <
        (2 * 65536 * 1536 * temperada k.toNat) ^ 12 * 2 ^ 9 ∧
      (2 * 65536 * 1536 * temperada k.toNat) ^ 12 * 2 ^ 9 <
        ((2 * ((delta k).toNat : ℝ) + 1) * 12500000) ^ 12 * 2 ^ 9 := by
    rw [mul_pow (2 * 65536 * 1536) (temperada k.toNat), mul_assoc _ (temperada k.toNat ^ 12),
      temperada_doce lo]
    exact_mod_cast delta_doce k lo hi
  have lower : (2 * ((delta k).toNat : ℝ) - 1) * 12500000 < 2 * 65536 * 1536 * temperada k.toNat := by
    apply lt_of_pow_lt_pow_left₀ 12 (by positivity)
    exact lt_of_mul_lt_mul_right powers.1 (by norm_num)
  have upper : 2 * 65536 * 1536 * temperada k.toNat < (2 * ((delta k).toNat : ℝ) + 1) * 12500000 := by
    apply lt_of_pow_lt_pow_left₀ 12 (by positivity)
    exact lt_of_mul_lt_mul_right powers.2 (by norm_num)
  rw [muestreo]
  apply abs_lt.mpr
  constructor <;> linarith

/-- The entry for a phase: the eight bits that the table does not see are less than a turn over 256. -/
lemma rom_fase {q : ℕ} (lt : q < 65536) : |(rom (q / 256) : ℝ) - 32767 * sin (q * (2 * π / 65536))| ≤ 802 := by
  have table := rom_seno (n := q / 256) (by omega)
  have split : (q : ℝ) = 256 * (q / 256 : ℕ) + (q % 256 : ℕ) := by
    exact_mod_cast (Nat.div_add_mod q 256).symm
  have rest : ((q % 256 : ℕ) : ℝ) ≤ 255 := by
    exact_mod_cast Nat.lt_succ_iff.mp (Nat.mod_lt q (by decide))
  have angle : |(q / 256 : ℕ) * (π / 128) - q * (2 * π / 65536)| ≤ 8011 / 327670 := by
    have turn : (q / 256 : ℕ) * (π / 128) - q * (2 * π / 65536) = -((q % 256 : ℕ) * (2 * π / 65536)) := by
      rw [split]
      ring
    rw [turn, abs_neg, abs_of_nonneg (by positivity)]
    calc ((q % 256 : ℕ) : ℝ) * (2 * π / 65536) ≤ 255 * (2 * 3.1416 / 65536) := by
          gcongr
          exact pi_lt_d4.le
      _ ≤ 8011 / 327670 := by norm_num
  have near := (abs_sin_sub_sin_le _ _).trans angle
  have table' := abs_lt.mp table
  have near' := abs_le.mp near
  apply abs_le.mpr
  constructor <;> linarith

/-- The word for a phase and a velocity is the sine with that amplitude. -/
lemma muestra_seno (q : ℕ) (v : BitVec 7) :
    |(SoundModule.muestra (q % 65536) true v : ℝ) - 32767 * (v.toNat / 128) * sin (2 * π * (q / 65536))| ≤
      1 + 802 * (v.toNat / 128) := by
  have turns : sin (2 * π * (q / 65536)) = sin ((q % 65536 : ℕ) * (2 * π / 65536)) := by
    have split : (q : ℝ) = 65536 * (q / 65536 : ℕ) + (q % 65536 : ℕ) := by
      exact_mod_cast (Nat.div_add_mod q 65536).symm
    rw [← sin_add_nat_mul_two_pi ((q % 65536 : ℕ) * (2 * π / 65536)) (q / 65536), split]
    congr 1
    ring
  have entry := rom_fase (Nat.mod_lt q (by decide : 0 < 65536))
  have down := Giro.abs_ediv_sub (rom (q % 65536 / 256) * v.toNat) (D := 128) (by decide)
  push_cast at down
  have scaled : |(rom (q % 65536 / 256) : ℝ) * v.toNat / 128 -
      32767 * (v.toNat / 128) * sin ((q % 65536 : ℕ) * (2 * π / 65536))| ≤ 802 * (v.toNat / 128) := by
    have louder := mul_le_mul_of_nonneg_right entry (show (0 : ℝ) ≤ v.toNat / 128 by positivity)
    rw [← abs_of_nonneg (show (0 : ℝ) ≤ v.toNat / 128 by positivity), ← abs_mul] at louder
    rw [abs_of_nonneg (show (0 : ℝ) ≤ v.toNat / 128 by positivity)] at louder
    refine (congrArg abs ?_).trans_le louder
    ring
  rw [SoundModule.muestra, if_pos rfl, turns]
  have down' := abs_le.mp down
  have scaled' := abs_le.mp scaled
  apply abs_le.mpr
  constructor <;> linarith

end SinDDS

namespace SoundModule
open Sync Series Real

section Frames
variable {w : ℕ → In} {a : ℕ} (c : Clocks (bclk w) (daclrc w)) (first : Begins (daclrc w) a)
include c first

/-- While a key of the table is held, the words of the frames are those of a sine of its frequency, up to the
nearest increment and the resolution of the table. -/
theorem soundModule_seno {k v : BitVec 7} (lo : 60 ≤ k.toNat) (hi : k.toNat ≤ 71) :
    ∃ f φ : ℝ, |f - SinDDS.temperada k.toNat / SinDDS.muestreo| < 1 / 131072 ∧ ∀ b, a ≤ b →
      (∀ x, a ≤ x → x ≤ b → (w (x + 2)).enable = true ∧ (w (x + 2)).key = k ∧ (w (x + 2)).vel = v) →
      ∃ u : BitVec 16, Carries (bclk w) (daclrc w) (fun t => (salida w t).dacDat) u b ∧
        |(u.toInt : ℝ) - 32767 * (v.toNat / 128) * sin (2 * π * (φ + (tramas (daclrc w) a b).card * f))| ≤
          1 + 802 * (v.toNat / 128) := by
  refine ⟨_, (fase w (a + 2)).toNat / 65536, SinDDS.delta_afinada lo hi, fun b ab held => ?_⟩
  obtain ⟨u, carries, eq⟩ := corriente_sostenida c first ab held
  refine ⟨u, carries, ?_⟩
  have sine := SinDDS.muestra_seno
    ((fase w (a + 2)).toNat + (tramas (daclrc w) a b).card * (SinDDS.delta k).toNat) v
  push_cast [add_div, mul_div_assoc] at sine
  rwa [eq]

end Frames

/-- `maestro` holds key 60 with velocity 100 from its first frame on. -/
theorem soundModule_seno_maestro : ∃ f φ : ℝ, |f - SinDDS.temperada 60 / SinDDS.muestreo| < 1 / 131072 ∧
    ∀ b, 135 ≤ b → ∃ u : BitVec 16,
      Carries (bclk maestro) (daclrc maestro) (fun t => (salida maestro t).dacDat) u b ∧
        |(u.toInt : ℝ) - 32767 * ((100 : ℕ) / 128) *
            sin (2 * π * (φ + (tramas (daclrc maestro) 135 b).card * f))| ≤ 1 + 802 * ((100 : ℕ) / 128) := by
  obtain ⟨f, φ, tuned, held⟩ := soundModule_seno maestro_clocks (a := 135) ⟨rfl, rfl⟩ (k := 60#7) (v := 100#7)
    (by decide) (by decide)
  exact ⟨f, φ, tuned, fun b ab => held b ab fun x _ _ => ⟨rfl, rfl, rfl⟩⟩

end SoundModule
