import Mathlib.Analysis.SpecialFunctions.Trigonometric.Bounds
import Mathlib.Tactic.Linarith
import Mathlib.Tactic.Positivity
import Mathlib.Tactic.Ring

/-!
# The multiples of an angle in fixed point

`punto D c s n` turns the point `(D, 0)` `n` times by the angle whose cosine and sine are nearly `c / D` and
`s / D`, with integers and rounding down. `punto_error` bounds its distance to the true point of the circle,
so that a table of sines can be checked by evaluating it.
-/

namespace Giro
open Real

/-- The point of the circle of radius `D` that `n` rounded rotations by the angle with cosine `c / D` and sine
`s / D` reach. -/
def punto (D c s : ℤ) : ℕ → ℤ × ℤ
  | 0 => (D, 0)
  | n + 1 =>
    let p := punto D c s n
    ((p.1 * c - p.2 * s) / D, (p.1 * s + p.2 * c) / D)

/-- Rounding down loses less than one. -/
lemma abs_ediv_sub (a : ℤ) {D : ℤ} (pos : 0 < D) : |(a : ℝ) / D - (a / D : ℤ)| ≤ 1 := by
  have pos' : (0 : ℝ) < D := Int.cast_pos.mpr pos
  have split : (a : ℝ) = D * (a / D : ℤ) + (a % D : ℤ) := by
    exact_mod_cast (Int.mul_ediv_add_emod a D).symm
  have lo : (0 : ℝ) ≤ (a % D : ℤ) := Int.cast_nonneg (Int.emod_nonneg a pos.ne')
  have hi : ((a % D : ℤ) : ℝ) ≤ D := Int.cast_le.mpr (Int.emod_lt_of_pos a pos).le
  have rest : (a : ℝ) / D - (a / D : ℤ) = (a % D : ℤ) / D := by
    rw [div_sub' pos'.ne', split]
    ring
  rw [rest, abs_of_nonneg (div_nonneg lo pos'.le)]
  exact (div_le_one pos').mpr hi

/-- The error of a product in fixed point. -/
lemma mul_error {D u v x y E : ℝ} (pos : 0 < D) (hu : |u| ≤ 1) (hx : |D * u - x| ≤ E) (hy : |D * v - y| ≤ 1) :
    |D * (u * v) - x * y / D| ≤ E * |v| + 1 + E / D := by
  have split : D * (u * v) - x * y / D = (D * u - x) * v + x / D * (D * v - y) := by
    field_simp
    ring
  have size : |x / D| ≤ 1 + E / D := by
    have le : |x| ≤ D + E := by
      calc |x| = |D * u - (D * u - x)| := by rw [sub_sub_cancel]
        _ ≤ |D * u| + |D * u - x| := abs_sub _ _
        _ ≤ D + E := by
          rw [abs_mul, abs_of_pos pos]
          exact add_le_add (mul_le_of_le_one_right pos.le hu) hx
    rw [abs_div, abs_of_pos pos, div_le_iff₀ pos, add_mul, one_mul, div_mul_cancel₀ _ pos.ne']
    exact le
  rw [split]
  calc |(D * u - x) * v + x / D * (D * v - y)| ≤ |(D * u - x) * v| + |x / D * (D * v - y)| := abs_add_le _ _
    _ ≤ E * |v| + (1 + E / D) := by
      rw [abs_mul, abs_mul]
      refine add_le_add (mul_le_mul_of_nonneg_right hx (abs_nonneg v)) ?_
      calc |x / D| * |D * v - y| ≤ |x / D| * 1 := mul_le_mul_of_nonneg_left hy (abs_nonneg _)
        _ ≤ 1 + E / D := by rwa [mul_one]
    _ = E * |v| + 1 + E / D := by ring

section Error
variable {D c s : ℤ} {θ : ℝ} (large : 1000 ≤ D) (hc : |D * cos θ - c| ≤ 1) (hs : |D * sin θ - s| ≤ 1)
  (small : |sin θ| ≤ 1 / 40)
include large hc hs small

/-- The error of a turn. -/
lemma paso_error {x y : ℤ} {u v E : ℝ} (hu : |u| ≤ 1) (hv : |v| ≤ 1) (big : 150 ≤ E) (hx : |D * u - x| ≤ E)
    (hy : |D * v - y| ≤ E) :
    |D * (u * cos θ - v * sin θ) - ((x * c - y * s) / D : ℤ)| ≤ 21 / 20 * E ∧
      |D * (v * cos θ + u * sin θ) - ((x * s + y * c) / D : ℤ)| ≤ 21 / 20 * E := by
  have pos : 0 < D := by omega
  have large' : (1000 : ℝ) ≤ D := by exact_mod_cast large
  have pos' : (0 : ℝ) < D := by linarith
  have one : E * |cos θ| ≤ E := mul_le_of_le_one_right (by linarith) (abs_cos_le_one θ)
  have few : E * |sin θ| ≤ E * (1 / 40) := mul_le_mul_of_nonneg_left small (by linarith)
  have rest : E / D ≤ E / 1000 := div_le_div_of_nonneg_left (by linarith) (by norm_num) large'
  have uc := abs_le.mp (mul_error pos' hu hx hc)
  have us := abs_le.mp (mul_error pos' hu hx hs)
  have vc := abs_le.mp (mul_error pos' hv hy hc)
  have vs := abs_le.mp (mul_error pos' hv hy hs)
  have down := abs_le.mp (abs_ediv_sub (x * c - y * s) pos)
  have down' := abs_le.mp (abs_ediv_sub (x * s + y * c) pos)
  push_cast [sub_div, add_div] at down down'
  constructor
  · apply abs_le.mpr
    constructor <;> linarith
  · apply abs_le.mpr
    constructor <;> linarith

/-- For an angle of at most a fortieth the error grows by a twentieth in each turn. -/
theorem punto_error (n : ℕ) :
    |D * cos (n * θ) - (punto D c s n).1| ≤ 150 * (21 / 20) ^ n ∧
      |D * sin (n * θ) - (punto D c s n).2| ≤ 150 * (21 / 20) ^ n := by
  induction n with
  | zero => simp [punto]
  | succ n ih =>
    have big : (150 : ℝ) ≤ 150 * (21 / 20) ^ n := le_mul_of_one_le_right (by norm_num) (one_le_pow₀ (by norm_num))
    obtain ⟨x, y⟩ := paso_error large hc hs small (abs_cos_le_one _) (abs_sin_le_one _) big ih.1 ih.2
    have angle : ((n + 1 : ℕ) : ℝ) * θ = n * θ + θ := by
      push_cast
      ring
    have more : 150 * (21 / 20 : ℝ) ^ (n + 1) = 21 / 20 * (150 * (21 / 20) ^ n) := by ring
    rw [angle, cos_add, sin_add, more]
    exact ⟨x, y⟩

end Error

end Giro
