import TecMidi.Rx.UartRx
import TecMidi.Sync.Register

/-!
# `uart_rx` on any waveform

Whatever `rx` and `ack` do, and for every bit length of at least four cycles: the counters stay in their
declared ranges, and `byte` holds the eight bits sampled for it as long as `ready` is 1. `muestras` is what
has been shifted in since the last cycle in `idle`; the invariant `Segura` ties it to the control state, the
counters and the shift register.
-/

namespace UartRx
open Sync

variable {g : Generics}

/-- The bits shifted in since the last cycle in `idle`, after an edge. -/
def toma (s : St) (bs : List Bool) : List Bool :=
  match s.st with
  | .idle => []
  | .readbit => bs ++ [s.rxd]
  | _ => bs

/-- The bits shifted in before a cycle, since the last one in `idle`. -/
def muestras (g : Generics) (w : ℕ → In) : ℕ → List Bool
  | 0 => []
  | t + 1 => toma ((uartRx g).run reset w t) (muestras g w t)

/-- The bounds of the counters in each state, and what the shift register holds: the last bits in its top. -/
structure Segura (g : Generics) (c : Ctl) (bs : List Bool) : Prop where
  tmp : c.ctmp + 2 ≤ g.ciclosBit
  wait0 : c.st = .wait0 → c.ctmp + 2 ≤ g.ciclosMbit
  waitbit : c.st = .waitbit → c.ctmp + 3 ≤ g.ciclosBit
  bits : c.cbits ≤ 8
  readbit : c.st = .readbit → c.cbits < 8
  recend : c.st = .recend → c.cbits = 8
  count : c.st ≠ .idle → c.cbits = bs.length
  shifted : c.st ≠ .idle → ∀ j < 8, j < bs.length → bs.reverse[j]? = some (c.srbyte.getLsbD (7 - j))

/-- A shift takes the newest bit in at the top. -/
lemma shifted_cons {c : BitVec 8} {bs : List Bool} (x : Bool)
    (old : ∀ j < 8, j < bs.length → bs.reverse[j]? = some (c.getLsbD (7 - j))) :
    ∀ j < 8, j < (bs ++ [x]).length → (bs ++ [x]).reverse[j]? = some ((shiftIn x c).getLsbD (7 - j)) := by
  intro j lt len
  rw [List.length_append, List.length_singleton] at len
  rw [List.reverse_append, shiftIn, Serial.getLsbD_shiftIn x c (Nat.sub_le 7 j)]
  cases j with
  | zero => rfl
  | succ j =>
    rw [if_neg (by omega), show 7 - (j + 1) + 1 = 7 - j by omega]
    exact old j (by omega) (by omega)

/-- Back in `idle` only the ranges matter. -/
lemma Segura.idle {m n : ℕ} {r : BitVec 8} {bs : List Bool} (tmp : m + 2 ≤ g.ciclosBit) (bits : n ≤ 8) :
    Segura g ⟨.idle, m, n, r⟩ bs :=
  ⟨tmp, nofun, nofun, bits, nofun, nofun, fun ne => absurd rfl ne, fun ne => absurd rfl ne⟩

/-- Every edge keeps the invariant. -/
lemma Segura.clk (four : 4 ≤ g.ciclosBit) {s : St} {bs : List Bool} (inv : Segura g s.ctl bs) (i : In) :
    Segura g (UartRx.clk g s i).ctl (toma s bs) := by
  have half : g.ciclosMbit = g.ciclosBit / 2 := rfl
  obtain ⟨tmp, wait0, waitbit, bits, readbit, recend, count, shifted⟩ := inv
  generalize eq : s.ctl = c at *
  obtain ⟨q, m, n, r⟩ := c
  have st : s.st = q := congrArg Ctl.st eq
  simp only at tmp wait0 waitbit bits readbit recend count shifted
  cases q with
  | idle =>
    rw [clk_idle st, toma, st]
    split
    · refine ⟨by simp only; omega, fun _ => by simp only; omega, nofun, by simp, nofun, nofun,
        fun _ => rfl, ?_⟩
      intro _ j _ len
      cases len
    · exact .idle (by omega) (by omega)
  | wait0 =>
    have keep : toma s bs = bs := by rw [toma, st]
    have le := wait0 rfl
    rw [keep]
    rcases Nat.eq_or_lt_of_le le with fin | more
    · rw [clk_wait0_fin eq fin]
      split
      · exact .idle (by omega) bits
      · exact ⟨by simp only; omega, nofun, nofun, bits, nofun, nofun, fun _ => count (by simp),
          fun _ => shifted (by simp)⟩
    · rw [clk_wait0 eq more]
      exact ⟨by simp only; omega, fun _ => by simp only; omega, nofun, bits, nofun, nofun, count, shifted⟩
  | cltmp =>
    have keep : toma s bs = bs := by rw [toma, st]
    rw [keep, clk_cltmp eq]
    exact ⟨by simp only; omega, nofun, fun _ => by simp only; omega, bits, nofun, nofun,
      fun _ => count (by simp), fun _ => shifted (by simp)⟩
  | waitbit =>
    have keep : toma s bs = bs := by rw [toma, st]
    have le := waitbit rfl
    rw [keep]
    rcases Nat.eq_or_lt_of_le le with fin | more
    · rw [clk_waitbit_fin eq fin]
      by_cases last : n = 8
      · rw [if_pos last]
        split
        · exact ⟨by simp only; omega, nofun, nofun, bits, nofun, fun _ => last, fun _ => count (by simp),
            fun _ => shifted (by simp)⟩
        · exact .idle (by omega) bits
      · rw [if_neg last]
        exact ⟨by simp only; omega, nofun, nofun, bits, fun _ => by simp only; omega, nofun,
          fun _ => count (by simp), fun _ => shifted (by simp)⟩
    · rw [clk_waitbit eq more]
      exact ⟨by simp only; omega, nofun, fun _ => by simp only; omega, bits, nofun, nofun, count, shifted⟩
  | readbit =>
    have keep : toma s bs = bs ++ [s.rxd] := by rw [toma, st]
    have lt := readbit rfl
    rw [keep, clk_readbit eq]
    refine ⟨tmp, nofun, nofun, lt, nofun, nofun, fun _ => ?_, fun _ => ?_⟩
    · rw [List.length_append, List.length_singleton, ← count (by simp)]
    · exact shifted_cons s.rxd (shifted (by simp))
  | recend =>
    have keep : toma s bs = bs := by rw [toma, st]
    rw [keep, clk_recend eq]
    exact .idle tmp bits

/-- The invariant in every run. -/
lemma segura_run (four : 4 ≤ g.ciclosBit) (w : ℕ → In) (t : ℕ) :
    Segura g ((uartRx g).run reset w t).ctl (muestras g w t) := by
  induction t with
  | zero => exact .idle (show 0 + 2 ≤ g.ciclosBit by omega) (Nat.zero_le 8)
  | succ t ih => exact ih.clk four (w t)

/-- What the shift register holds in `recend`. -/
lemma Segura.byte {s : St} {bs : List Bool} (inv : Segura g s.ctl bs) (end_ : s.st = .recend) :
    bs.length = 8 ∧ ∀ i < 8, bs[i]? = some (s.srbyte.getLsbD i) := by
  have ne : s.ctl.st ≠ .idle := by
    show s.st ≠ .idle
    rw [end_]
    simp
  have len : bs.length = 8 := (inv.count ne).symm.trans (inv.recend end_)
  refine ⟨len, fun i lt => ?_⟩
  have bit := inv.shifted ne (7 - i) (by omega) (by omega)
  rw [List.getElem?_reverse (by omega), len, show 8 - 1 - (7 - i) = 7 - (7 - i) by omega,
    show 7 - (7 - i) = i by omega] at bit
  exact bit

/-- `recend` is entered from the end of the ninth bit, with the line sampled high. -/
lemma clk_recend_from {s : St} {i : In} (end_ : (clk g s i).st = .recend) :
    s.st = .waitbit ∧ s.tmpbit g = true ∧ s.cbits = 8 ∧ s.rxd = true := by
  have next : s.nextSt g = .recend := end_
  cases st : s.st with
  | idle => cases down : s.rxdown <;> simp [St.nextSt, st, down] at next
  | wait0 => cases half : s.tmp0 g <;> cases rxd : s.rxd <;> simp [St.nextSt, st, half, rxd] at next
  | cltmp => simp [St.nextSt, st] at next
  | waitbit =>
    cases full : s.tmpbit g with
    | false => simp [St.nextSt, st, full] at next
    | true =>
      cases last : s.lastbit with
      | false => simp [St.nextSt, st, full, last] at next
      | true =>
        cases rxd : s.rxd with
        | false => simp [St.nextSt, st, full, last, rxd] at next
        | true => exact ⟨rfl, rfl, of_decide_eq_true last, rfl⟩
  | readbit => simp [St.nextSt, st] at next
  | recend => simp [St.nextSt, st] at next

/-- The flip-flop of `ready`: the set input wins. -/
lemma clk_jkready_iff (s : St) (i : In) :
    (clk g s i).jkready = true ↔
      s.st = .recend ∨ s.jkready = true ∧ s.st ≠ .readbit ∧ i.ack = false := by
  have law : (clk g s i).jkready =
      if s.ready1 = true then true else if s.ready0 = true ∨ i.ack = true then false else s.jkready := rfl
  rw [law]
  by_cases end_ : s.st = .recend
  · simp [St.ready1, end_]
  · by_cases shift : s.st = .readbit
    · simp [St.ready1, St.ready0, St.shRight, shift]
    · cases ack : i.ack <;> simp [St.ready1, St.ready0, St.shRight, end_, shift]

/-- Only `readbit` shifts. -/
lemma clk_srbyte {s : St} {i : In} (keep : s.st ≠ .readbit) : (clk g s i).srbyte = s.srbyte := by
  have no : s.shRight = false := decide_eq_false keep
  simp [clk, no]

variable {w : ℕ → In}

/-- `ready` is a flag that `recend` sets, and a shift or `ack` clears. -/
lemma ready_flag (w : ℕ → In) : Flag (fun t => ((uartRx g).run reset w t).jkready = true)
    (fun t => ((uartRx g).run reset w t).st = .recend)
    (fun t => ((uartRx g).run reset w t).st = .readbit ∨ (w t).ack = true) where
  zero := by
    intro up
    cases up
  step t := by
    rw [Machine.run_succ]
    refine (clk_jkready_iff _ _).trans ?_
    rw [not_or, Bool.not_eq_true]

/-- As long as `ready` is 1, `byte` is what had been sampled in the last `recend`. -/
lemma ready_byte (four : 4 ≤ g.ciclosBit) {t : ℕ} (ready : ((uartRx g).run reset w t).jkready = true) :
    ∃ r < t, ((uartRx g).run reset w r).st = .recend ∧
      (∀ u, r < u → u ≤ t → ((uartRx g).run reset w u).jkready = true) ∧
      ∀ i < 8, (muestras g w r)[i]? = some (((uartRx g).run reset w t).srbyte.getLsbD i) := by
  obtain ⟨r, lt, end_, since⟩ := ((ready_flag w).up_iff t).mp ready
  refine ⟨r, lt, end_, ?_, ?_⟩
  · intro u lo hi
    exact ((ready_flag w).up_iff u).mpr ⟨r, lo, end_, fun v lo' hi' => since v lo' (by omega)⟩
  · have same : ((uartRx g).run reset w t).srbyte = ((uartRx g).run reset w r).srbyte := by
      refine Machine.run_stays (P := fun s : St => s.srbyte = ((uartRx g).run reset w r).srbyte)
        (Nat.le_of_lt lt) rfl fun v lo hi kept => ?_
      -- a shift would have cleared `ready`
      refine Eq.trans (clk_srbyte fun shift => ?_) kept
      rcases Nat.eq_or_lt_of_le lo with rfl | lo'
      · rw [end_] at shift
        cases shift
      · have set_ := since v lo' hi (.inl shift)
        rw [set_] at shift
        cases shift
    rw [same]
    exact ((segura_run four w r).byte end_).2

/-- Safety on every waveform of `rx` and `ack`, from reset: the counters stay in their ranges; `ready` is
set in the cycle after `recend` only, which has been entered with eight bits shifted in since `idle` and the
line high; while it is 1, `byte` is those eight bits; it is cleared by the first shift or `ack`, and only
shifts change `byte`. -/
theorem uartRx_seguro (four : 4 ≤ g.ciclosBit) (w : ℕ → In) (t : ℕ) :
    (((uartRx g).run reset w t).ctmp ≤ g.ciclosBit - 2 ∧ ((uartRx g).run reset w t).cbits ≤ 8) ∧
    (((uartRx g).wave reset w (t + 1)).ready = true ↔
      ((uartRx g).run reset w t).st = .recend ∨
        ((uartRx g).wave reset w t).ready = true ∧ ((uartRx g).run reset w t).st ≠ .readbit ∧
          (w t).ack = false) ∧
    (((uartRx g).run reset w t).st = .recend → (muestras g w t).length = 8 ∧
      ∃ q, t = q + 2 ∧ ((uartRx g).run reset w (q + 1)).st = .waitbit ∧
        ((uartRx g).run reset w (q + 1)).tmpbit g = true ∧ (w q).rx = true) ∧
    (((uartRx g).wave reset w t).ready = true →
      ∃ r < t, ((uartRx g).run reset w r).st = .recend ∧
        (∀ u, r < u → u ≤ t → ((uartRx g).wave reset w u).ready = true) ∧
        ∀ i < 8, (muestras g w r)[i]? = some (((uartRx g).wave reset w t).byte.getLsbD i)) ∧
    (((uartRx g).wave reset w (t + 1)).byte ≠ ((uartRx g).wave reset w t).byte →
      ((uartRx g).run reset w t).st = .readbit) := by
  have inv := segura_run four w t
  refine ⟨⟨?_, inv.bits⟩, clk_jkready_iff (g := g) _ _, ?_, ready_byte four, ?_⟩
  · have tmp : ((uartRx g).run reset w t).ctmp + 2 ≤ g.ciclosBit := inv.tmp
    omega
  · intro end_
    refine ⟨(inv.byte end_).1, ?_⟩
    match t with
    | 0 => cases end_
    | 1 => cases (clk_recend_from end_).1
    | q + 2 =>
      obtain ⟨st, full, -, rxd⟩ := clk_recend_from end_
      exact ⟨q, rfl, st, full, rxd⟩
  · intro changed
    by_contra keep
    exact changed (clk_srbyte (g := g) (i := w t) keep)

/-- A byte 0x55 at the smallest bit length, not acknowledged. -/
def unByte (t : ℕ) : In := ⟨Serial.line 4 [(2, 0x55#8)] t, false⟩

/-- It is offered from `recend` on, and it is what has been sampled. -/
theorem uartRx_seguro_cuatro : ∃ r < 60, ((uartRx ⟨1, 4⟩).run reset unByte r).st = .recend ∧
    (∀ u, r < u → u ≤ 60 → ((uartRx ⟨1, 4⟩).wave reset unByte u).ready = true) ∧
    ∀ i < 8, (muestras ⟨1, 4⟩ unByte r)[i]? = some ((0x55#8).getLsbD i) := by
  obtain ⟨-, -, -, ready, -⟩ := uartRx_seguro (g := ⟨1, 4⟩) (by decide) unByte 60
  have offered : ((uartRx ⟨1, 4⟩).wave reset unByte 60) = ⟨0x55#8, true⟩ := by decide +kernel
  rw [offered] at ready
  exact ready rfl

/-- A byte 0xFF, not acknowledged, and the next start bit. -/
def dosBytes (t : ℕ) : In := ⟨decide (t < 2 ∨ 6 ≤ t ∧ t < 42 ∨ 46 ≤ t), false⟩

/-- `ready` may fall at a shift that leaves `byte` as it was. -/
theorem ready_cae_sin_cambio :
    ¬ ∀ (g : Generics), 4 ≤ g.ciclosBit → ∀ (w : ℕ → In) (t : ℕ),
      ((uartRx g).wave reset w t).ready = true → ((uartRx g).wave reset w (t + 1)).ready = false →
      ((uartRx g).wave reset w (t + 1)).byte ≠ ((uartRx g).wave reset w t).byte ∨ (w t).ack = true := by
  intro claim
  have falls := claim ⟨1, 4⟩ (by decide) dosBytes 48 (by decide +kernel) (by decide +kernel)
  revert falls
  decide +kernel

end UartRx
