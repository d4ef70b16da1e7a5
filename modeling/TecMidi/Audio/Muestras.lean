import Mathlib.Algebra.BigOperators.Group.Finset.Basic
import TecMidi.Audio.SinDDS

/-!
# The samples of `sin_DDS`, exactly

The phase is the sum of the increments at the edges with `ld`, modulo 2^16. The scaling of a word of the
table by a velocity is exact up to the shift, which rounds down: the product of 16 by 8 bits fits in 24, and
after the shift the value fits in 16, so `resize` only drops copies of the sign (`toInt_escala`).
-/

namespace SinDDS
open Sync

/-- The scaling of a word by a velocity. -/
def producto (d : BitVec 16) (vel : BitVec 7) : BitVec 24 := d.signExtend 24 * (0#1 ++ vel).signExtend 24

/-- The word scaled by the velocity. -/
def escala (d : BitVec 16) (vel : BitVec 7) : BitVec 16 := resize ((producto d vel).sshiftRight 7)

/-- The table, for any address. -/
def rom (n : ℕ) : ℤ := sin256rom.getD n 0

/-- A word has 16 bits with sign. -/
lemma word_range (d : BitVec 16) : -32768 ≤ d.toInt ∧ d.toInt ≤ 32767 := by
  have lo := BitVec.le_toInt d
  have hi := BitVec.toInt_lt (x := d)
  omega

/-- A velocity has seven bits. -/
lemma vel_range (vel : BitVec 7) : (0 : ℤ) ≤ vel.toNat ∧ (vel.toNat : ℤ) ≤ 127 := by
  have lt := vel.isLt
  omega

/-- A word times a velocity is a number of 23 bits and a sign. -/
lemma product_range (d : BitVec 16) (vel : BitVec 7) :
    -4161536 ≤ d.toInt * vel.toNat ∧ d.toInt * vel.toNat ≤ 4161409 := by
  obtain ⟨lo, hi⟩ := word_range d
  obtain ⟨pos, le⟩ := vel_range vel
  have low : -32768 * (vel.toNat : ℤ) ≤ d.toInt * vel.toNat := Int.mul_le_mul_of_nonneg_right lo pos
  have high : d.toInt * vel.toNat ≤ 32767 * (vel.toNat : ℤ) := Int.mul_le_mul_of_nonneg_right hi pos
  omega

/-- With a bit 0 above it a velocity is not negative. -/
lemma toInt_vel (vel : BitVec 7) : (0#1 ++ vel).toInt = vel.toNat := by
  refine (BitVec.toInt_zero_append (m := 1)).trans ?_
  rw [if_neg (by decide)]

/-- The product of the multiplier is the exact one. -/
lemma toInt_producto (d : BitVec 16) (vel : BitVec 7) :
    (producto d vel).toInt = d.toInt * vel.toNat := by
  obtain ⟨lo, hi⟩ := product_range d vel
  rw [producto, BitVec.toInt_mul, BitVec.toInt_signExtend_of_le (by omega),
    BitVec.toInt_signExtend_of_le (by omega), toInt_vel]
  exact Int.bmod_eq_of_le (by omega) (by omega)

/-- The arithmetic shift rounds down. -/
lemma toInt_shift (d : BitVec 16) (vel : BitVec 7) :
    ((producto d vel).sshiftRight 7).toInt = d.toInt * vel.toNat / 128 := by
  rw [BitVec.toInt_sshiftRight, toInt_producto, Int.shiftRight_eq_div_pow]
  rfl

/-- `resize` puts the sign bit over the low 15 bits. -/
lemma toNat_resize (x : BitVec 24) :
    (resize x).toNat = x.toNat / 8388608 % 2 * 32768 + x.toNat % 32768 := by
  have sign : (x.extractLsb' 23 1).toNat = x.toNat / 8388608 % 2 := by
    rw [BitVec.extractLsb'_toNat, Nat.shiftRight_eq_div_pow]
  have low : (x.extractLsb' 0 15).toNat = x.toNat % 32768 := by
    rw [BitVec.extractLsb'_toNat, Nat.shiftRight_zero]
  have join := BitVec.toNat_append (x.extractLsb' 23 1) (x.extractLsb' 0 15)
  rw [← Nat.shiftLeft_add_eq_or_of_lt (x.extractLsb' 0 15).isLt, Nat.shiftLeft_eq, sign, low] at join
  exact join

/-- `resize` keeps the numbers of 16 bits. -/
lemma toInt_resize (x : BitVec 24) (lo : -32768 ≤ x.toInt) (hi : x.toInt ≤ 32767) :
    (resize x).toInt = x.toInt := by
  have lt := x.isLt
  rw [BitVec.toInt_eq_toNat_cond] at lo hi
  rw [BitVec.toInt_eq_toNat_cond, BitVec.toInt_eq_toNat_cond, toNat_resize]
  by_cases pos : 2 * x.toNat < 2 ^ 24
  · rw [if_pos pos] at lo hi ⊢
    rw [if_pos (by omega)]
    omega
  · rw [if_neg pos] at lo hi ⊢
    rw [if_neg (by omega)]
    omega

/-- The scaled word, rounded down. -/
lemma toInt_escala (d : BitVec 16) (vel : BitVec 7) :
    (escala d vel).toInt = d.toInt * vel.toNat / 128 := by
  obtain ⟨lo, hi⟩ := product_range d vel
  have shift := toInt_shift d vel
  rw [escala, toInt_resize _ (by omega) (by omega), shift]

/-- Its magnitude is bounded. -/
lemma escala_le (d : BitVec 16) (vel : BitVec 7) : (escala d vel).toInt.natAbs ≤ 32512 := by
  obtain ⟨lo, hi⟩ := product_range d vel
  rw [toInt_escala]
  omega

/-- A louder note has larger samples. -/
lemma escala_mono (d : BitVec 16) {v v' : BitVec 7} (le : v ≤ v') :
    (escala d v).toInt.natAbs ≤ (escala d v').toInt.natAbs := by
  rw [toInt_escala, toInt_escala]
  have le' : (v.toNat : ℤ) ≤ v'.toNat := Int.ofNat_le.mpr (BitVec.le_def.mp le)
  have pos := (vel_range v).1
  rcases Int.le_total 0 d.toInt with up | down
  · have grows : d.toInt * v.toNat ≤ d.toInt * v'.toNat := Int.mul_le_mul_of_nonneg_left le' up
    have nonneg : 0 ≤ d.toInt * v.toNat := Int.mul_nonneg up pos
    omega
  · have falls : d.toInt * v'.toNat ≤ d.toInt * v.toNat := Int.mul_le_mul_of_nonpos_left down le'
    have nonpos : d.toInt * v.toNat ≤ 0 := Int.mul_nonpos_of_nonpos_of_nonneg down pos
    omega

/-- The entries of the table do not use the lowest word. -/
lemma rom_range (n : ℕ) : -32767 ≤ rom n ∧ rom n ≤ 32767 := by
  have table : ∀ r ∈ sin256rom, -32767 ≤ r ∧ r ≤ 32767 := by decide +kernel
  rw [rom, List.getD_eq_getElem?_getD]
  cases eq : sin256rom[n]? with
  | none => decide
  | some r => exact table r (List.mem_of_getElem? eq)

/-- The word read is the entry of the table at the top byte of the phase. -/
lemma toInt_datRom (q : BitVec 16) : (datRom q).toInt = rom (q.toNat / 256) := by
  have lt := q.isLt
  have addr : (q.extractLsb' 8 8).toNat = q.toNat / 256 := by
    rw [BitVec.extractLsb'_toNat, Nat.shiftRight_eq_div_pow]
    omega
  obtain ⟨lo, hi⟩ := rom_range (q.toNat / 256)
  rw [datRom, addr]
  rw [rom] at lo hi ⊢
  exact BitVec.toInt_ofInt_eq_self (by decide) (by omega) (by omega)

/-- With `enable` the sample is the scaled word. -/
lemma sample_on (q : BitVec 16) {i : In} (on : i.enable = true) :
    sample q i = escala (datRom q) i.vel := if_pos on

/-- Without `enable` it is 0. -/
lemma sample_off (q : BitVec 16) {i : In} (off : i.enable ≠ true) : sample q i = 0#16 := if_neg off

/-- One edge adds the increment of the key if `nextsample` and `enable` are both 1, and nothing otherwise. -/
lemma next_fase (q : BitVec 16) (i : In) :
    sinDDS.next q i = if i.nextsample = true ∧ i.enable = true then delta i.key + q else q := by
  have load : ld i = true ↔ i.nextsample = true ∧ i.enable = true := decide_eq_true_iff
  simp only [sinDDS, load]

/-- The phase is what the edges with both of them have added. -/
lemma run_fase (w : ℕ → In) (t : ℕ) :
    (sinDDS.run reset w t).toNat =
      (∑ u ∈ Finset.range t with (w u).nextsample = true ∧ (w u).enable = true, (delta (w u).key).toNat) %
        65536 := by
  induction t with
  | zero => rfl
  | succ t ih =>
    rw [Finset.range_add_one, Finset.filter_insert, Machine.run_succ, next_fase]
    split
    · rw [Finset.sum_insert (by simp), BitVec.toNat_add, ih]
      omega
    · exact ih

/-- In every run from reset: the phase is the sum of the increments at the edges with `nextsample` and
`enable`, modulo 2^16; the sample is the word of the table at that phase times the velocity over 128, rounded
down, or 0; no step of its computation loses a bit, for any word; its magnitude is at most 32512 and does not
fall with the velocity. -/
theorem sinDDS_exacto (w : ℕ → In) (t : ℕ) :
    (sinDDS.run reset w t).toNat =
        (∑ u ∈ Finset.range t with (w u).nextsample = true ∧ (w u).enable = true, (delta (w u).key).toNat) %
          65536 ∧
      (sinDDS.wave reset w t).toInt =
        (if (w t).enable = true then
          rom ((sinDDS.run reset w t).toNat / 256) * (w t).vel.toNat / 128 else 0) ∧
      (∀ (d : BitVec 16) (vel : BitVec 7),
        (d.signExtend 24 * (0#1 ++ vel).signExtend 24).toInt = d.toInt * vel.toNat ∧
        ((d.signExtend 24 * (0#1 ++ vel).signExtend 24).sshiftRight 7).toInt =
          d.toInt * vel.toNat / 128 ∧
        (resize ((d.signExtend 24 * (0#1 ++ vel).signExtend 24).sshiftRight 7)).toInt =
          d.toInt * vel.toNat / 128 ∧
        (resize ((d.signExtend 24 * (0#1 ++ vel).signExtend 24).sshiftRight 7)).toInt.natAbs ≤ 32512) ∧
      (sinDDS.wave reset w t).toInt.natAbs ≤ 32512 ∧
      ∀ (q : BitVec 16) (i : In) (v : BitVec 7), i.vel ≤ v →
        (sample q i).toInt.natAbs ≤ (sample q { i with vel := v }).toInt.natAbs := by
  have wave : sinDDS.wave reset w t = sample (sinDDS.run reset w t) (w t) := rfl
  refine ⟨run_fase w t, ?_, ?_, ?_, ?_⟩
  · rw [wave]
    by_cases on : (w t).enable = true
    · rw [sample_on _ on, if_pos on, toInt_escala, toInt_datRom]
    · rw [sample_off _ on, if_neg on]
      rfl
  · intro d vel
    exact ⟨toInt_producto d vel, toInt_shift d vel, toInt_escala d vel, escala_le d vel⟩
  · rw [wave]
    by_cases on : (w t).enable = true
    · rw [sample_on _ on]
      exact escala_le _ _
    · rw [sample_off _ on]
      exact Nat.zero_le _
  · intro q i v le
    by_cases on : i.enable = true
    · rw [sample_on q on, sample_on q (i := { i with vel := v }) on]
      exact escala_mono _ le
    · rw [sample_off q on]
      exact Nat.zero_le _

end SinDDS
