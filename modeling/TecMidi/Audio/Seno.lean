import Mathlib.Analysis.Real.Pi.Bounds
import TecMidi.Audio.Giro
import TecMidi.Audio.Muestras

/-!
# The sine of `sin_DDS`

`sin256rom` holds the integers nearest to `32767 * sin` at the 256 multiples of a turn over 256
(`rom_seno`): the first quarter is compared with the points of `Giro.punto`, and the others follow by
symmetry.
-/

namespace SinDDS
open Real

/-- Bounds for a root, from bounds for its square. -/
lemma sqrt_between {x a b c d : ℝ} (h : a ≤ x ∧ x ≤ b) (pos : 0 ≤ d) (lo : c ^ 2 ≤ 2 + a)
    (hi : 2 + b ≤ d ^ 2) : c ≤ √(2 + x) ∧ √(2 + x) ≤ d :=
  ⟨le_sqrt_of_sq_le (by linarith), sqrt_le_iff.mpr ⟨pos, by linarith⟩⟩

/-- Twice the cosine of `π / 64`. -/
lemma serie_five : 1.9975909124103447 ≤ sqrtTwoAddSeries 0 5 ∧ sqrtTwoAddSeries 0 5 ≤ 1.9975909124103448 := by
  have zero : (0 : ℝ) ≤ sqrtTwoAddSeries 0 0 ∧ sqrtTwoAddSeries 0 0 ≤ 0 := ⟨le_refl 0, le_refl 0⟩
  have one := sqrt_between (c := 1.4142135623730950) (d := 1.4142135623730951) zero
    (by norm_num) (by norm_num) (by norm_num)
  have two := sqrt_between (c := 1.8477590650225734) (d := 1.8477590650225736) one
    (by norm_num) (by norm_num) (by norm_num)
  have three := sqrt_between (c := 1.9615705608064608) (d := 1.9615705608064610) two
    (by norm_num) (by norm_num) (by norm_num)
  have four := sqrt_between (c := 1.9903694533443937) (d := 1.9903694533443938) three
    (by norm_num) (by norm_num) (by norm_num)
  exact sqrt_between four (by norm_num) (by norm_num) (by norm_num)

/-- The circle of radius `2 ^ 40`. -/
lemma cos_128 : |((2 ^ 40 : ℤ) : ℝ) * cos (π / 128) - (1099180475430 : ℤ)| ≤ 1 := by
  have six := sqrt_between (c := 1.9993976373924084) (d := 1.9993976373924085) serie_five
    (by norm_num) (by norm_num) (by norm_num)
  have cos := cos_pi_over_two_pow 6
  rw [show (2 : ℝ) ^ (6 + 1) = 128 by norm_num, sqrtTwoAddSeries] at cos
  rw [cos]
  push_cast
  apply abs_le.mpr
  constructor <;> linarith [six.1, six.2]

/-- The sine of the first step, to 40 bits. -/
lemma sin_128 : |((2 ^ 40 : ℤ) : ℝ) * sin (π / 128) - (26983366121 : ℤ)| ≤ 1 := by
  have lo : 0.049082457045824 ≤ √(2 - sqrtTwoAddSeries 0 5) := le_sqrt_of_sq_le (by linarith [serie_five.2])
  have hi : √(2 - sqrtTwoAddSeries 0 5) ≤ 0.049082457045826 :=
    sqrt_le_iff.mpr ⟨by norm_num, by linarith [serie_five.1]⟩
  have sin := sin_pi_over_two_pow_succ 5
  rw [show (2 : ℝ) ^ (5 + 2) = 128 by norm_num] at sin
  rw [sin]
  push_cast
  apply abs_le.mpr
  constructor <;> linarith

/-- The points of the first quarter. -/
def cuarto (n : ℕ) : ℤ := (Giro.punto (2 ^ 40) 1099180475430 26983366121 n).2

/-- The first quarter of the table is the rounded quarter circle. -/
lemma rom_cuarto : ∀ n < 65, 2 * (|rom n * 2 ^ 40 - 32767 * cuarto n| + 32767 * 4000) < 2 ^ 40 := by
  decide +kernel

/-- The computed quarter circle is the real one, up to the errors of 64 rotations. -/
lemma cuarto_seno {n : ℕ} (le : n ≤ 64) : |2 ^ 40 * sin (n * (π / 128)) - cuarto n| ≤ 4000 := by
  have small : |sin (π / 128)| ≤ 1 / 40 := by
    have near := abs_le.mp sin_128
    push_cast at near
    apply abs_le.mpr
    constructor <;> linarith
  have error := (Giro.punto_error (by norm_num) cos_128 sin_128 small n).2
  have grown : (21 / 20 : ℝ) ^ n ≤ (21 / 20) ^ 64 := pow_le_pow_right₀ (by norm_num) le
  rw [show ((2 ^ 40 : ℤ) : ℝ) = 2 ^ 40 by norm_num] at error
  refine error.trans ?_
  calc 150 * (21 / 20 : ℝ) ^ n ≤ 150 * (21 / 20) ^ 64 := by gcongr
    _ ≤ 4000 := by norm_num

/-- An entry of the first quarter is the nearest integer. -/
lemma rom_seno_cuarto {n : ℕ} (le : n ≤ 64) : |(rom n : ℝ) - 32767 * sin (n * (π / 128))| < 1 / 2 := by
  have table : 2 * (|(rom n : ℝ) * 2 ^ 40 - 32767 * cuarto n| + 32767 * 4000) < 2 ^ 40 := by
    exact_mod_cast rom_cuarto n (Nat.lt_succ_of_le le)
  have point := abs_le.mp (cuarto_seno le)
  have near := abs_lt.mp (show |(rom n : ℝ) * 2 ^ 40 - 32767 * cuarto n| < 2 ^ 39 - 32767 * 4000 by linarith)
  apply abs_lt.mpr
  constructor <;> linarith

/-- The other quarters of the table are mirror images of the first one. -/
lemma rom_simetria : (∀ n < 65, rom (128 - n) = rom n) ∧ ∀ n < 128, rom (128 + n) = -rom n := by
  decide +kernel

/-- Half a period of the table is the rounded sine. -/
lemma rom_seno_mitad {n : ℕ} (le : n ≤ 128) : |(rom n : ℝ) - 32767 * sin (n * (π / 128))| < 1 / 2 := by
  rcases Nat.le_total n 64 with first | second
  · exact rom_seno_cuarto first
  · have angle : (n : ℝ) * (π / 128) = π - (128 - n : ℕ) * (π / 128) := by
      rw [Nat.cast_sub le]
      push_cast
      ring
    have table := rom_simetria.1 (128 - n) (by omega)
    rw [Nat.sub_sub_self le] at table
    rw [angle, sin_pi_sub, table]
    exact rom_seno_cuarto (by omega)

/-- The table holds the integers nearest to the sine. -/
theorem rom_seno {n : ℕ} (lt : n < 256) : |(rom n : ℝ) - 32767 * sin (n * (π / 128))| < 1 / 2 := by
  rcases Nat.lt_or_ge n 128 with first | second
  · exact rom_seno_mitad (Nat.le_of_lt first)
  · obtain ⟨m, rfl⟩ := Nat.exists_eq_add_of_le second
    have angle : ((128 + m : ℕ) : ℝ) * (π / 128) = m * (π / 128) + π := by
      push_cast
      ring
    have before := rom_seno_mitad (n := m) (by omega)
    rw [rom_simetria.2 m (by omega), angle, sin_add_pi]
    push_cast
    rw [show -(rom m : ℝ) - 32767 * -sin (m * (π / 128)) = -(rom m - 32767 * sin (m * (π / 128))) by ring, abs_neg]
    exact before

end SinDDS
