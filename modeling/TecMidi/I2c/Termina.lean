import TecMidi.I2c.Framing
import TecMidi.Sync.Countdown

/-!
# When `au_setup` comes to its end

`falta` is the number of cycles to `e5` if no byte is refused: every edge lowers it by one, and a byte
that is not acknowledged makes it start again from 59392. So `auSetup_termina` says exactly when the
controller is in `e5`, whatever the slave answers.

A slave that keeps to the protocol only answers in a transfer whose start it has seen. When it refuses a
byte that ends in 0, the controller begins again without a start (`nack_sin_start`), so that nobody
answers any more: `auSetup_sorda`.
-/

namespace AuSetup
open Sync

/-- The slave does not acknowledge a byte. -/
def Rechaza (s : St) (i : In) : Prop := s.ep = .e2 ∧ up s = true ∧ i.esclavo = true

/-- The cycles to `e5` if no byte is refused. -/
def falta (s : St) : ℕ :=
  match s.ep with
  | .e0 => (256 - s.ctmp.toNat) + 128 + 28 * 256 + (laddr - s.caddr) * 7424
  | .e1 =>
    (256 - s.ctmp.toNat) + ((24 - s.cbits) + (3 - (s.cbits - 1) / 8) + 1) * 256 + (laddr - s.caddr) * 7424
  | .e2 | .e3 =>
    (256 - s.ctmp.toNat) + ((24 - s.cbits) + (2 - (s.cbits - 1) / 8) + 1) * 256 + (laddr - s.caddr) * 7424
  | .e4 => (256 - s.ctmp.toNat) + (laddr - s.caddr) * 7424
  | .e5 => 0

/-- The configuration takes 59392 cycles. -/
lemma falta_reset : falta reset = 59392 := rfl

/-- The time that is left is over in `e5` only. -/
lemma falta_zero {s : St} : falta s = 0 ↔ s.ep = .e5 := by
  have lt := s.ctmp.isLt
  constructor
  · intro zero
    obtain ⟨ep, n, a, c, d⟩ := s
    cases ep with
    | e5 => rfl
    | _ =>
      simp only [falta] at zero lt
      omega
  · intro e5
    rw [falta, e5]

/-- An edge that only counts does not come at the end of the count. -/
lemma Inv.no_down {s : St} (h : Inv s) (h5 : s.ep ≠ .e5) (hd : s.ep ≠ .e2 → s.ctmp ≠ 0xFF#8) :
    s.ctmp ≠ 0xFF#8 := by
  intro hFF
  cases h with
  | @baja n a c mic ha hn hc =>
    obtain rfl : c = 0xFF#8 := hFF
    exact absurd hc (by decide)
  | fin => exact h5 rfl
  | _ => exact hd nofun hFF

/-- The counter runs while time is left. -/
lemma falta_cuenta {s : St} (h : Inv s) (h5 : s.ep ≠ .e5) (hd : s.ep ≠ .e2 → s.ctmp ≠ 0xFF#8) :
    falta { s with ctmp := s.ctmp + 1#8 } = falta s - 1 := by
  have sig := toNat_cuenta (h.no_down h5 hd)
  have lt := (s.ctmp + 1#8).isLt
  obtain ⟨ep, n, a, c, d⟩ := s
  simp only at sig lt
  cases ep with
  | e5 => exact absurd rfl h5
  | _ =>
    simp only [falta, sig]
    omega

/-- Every edge lowers the count by one, unless a byte is refused. -/
lemma falta_clk {s : St} {i : In} (h : Inv s) (no : ¬ Rechaza s i) : falta (clk s i) = falta s - 1 := by
  have step := clk_step s i
  generalize clk s i = s' at step
  cases step with
  | cuenta h5 hu hd => exact falta_cuenta h h5 hd
  | inicio =>
    cases h with
    | espera ha hc =>
      simp only [falta, BitVec.toNat_ofNat]
      omega
  | @bit n a d hn =>
    cases h with
    | inicio ha hc =>
      simp only [falta, BitVec.toNat_ofNat]
      omega
    | bit mic ha lt =>
      simp only [falta, BitVec.toNat_ofNat]
      omega
  | @libera n a d hn =>
    cases h with
    | inicio ha hc => exact absurd hn (by decide)
    | bit mic ha lt =>
      simp only [falta, BitVec.toNat_ofNat]
      omega
  | nack hs => exact absurd ⟨rfl, rfl, hs⟩ no
  | ack hs =>
    simp only [falta, BitVec.toNat_ofNat]
    omega
  | @byte n a d hn =>
    cases h with
    | alta mic ha hn' hc =>
      simp only [falta, BitVec.toNat_ofNat]
      omega
  | cierre =>
    simp only [falta, BitVec.toNat_ofNat]
    omega
  | @palabra n a d ha =>
    cases h with
    | cierre le =>
      have lt : a < laddr := Nat.lt_of_le_of_ne le ha
      simp only [falta, BitVec.toNat_ofNat, laddr] at lt ⊢
      omega
  | final => simp only [falta, BitVec.toNat_ofNat, Nat.sub_self]
  | fin => simp only [falta]

/-- A refused byte starts the count again. -/
lemma falta_nack {s : St} {i : In} (no : Rechaza s i) : falta (clk s i) = 59392 := by
  obtain ⟨ep, n, a, c, d⟩ := s
  obtain ⟨e2, fin, nack⟩ := no
  obtain rfl : ep = .e2 := e2
  obtain rfl : c = 0x7F#8 := of_decide_eq_true fin
  rw [clk_nack nack]
  simp only [falta, BitVec.toNat_ofNat, laddr]

/-- The configuration is a countdown that the refused bytes start again. -/
lemma cuenta_atras : Countdown auSetup Inv falta Rechaza 59392 where
  keeps i h := h.clk i
  count := falta_clk
  restart _ no := falta_nack no
  ended _ no zero := by cases no.1.symm.trans (falta_zero.mp zero)

/-- The controller is in `e5` if and only if 59392 cycles have gone by without a refused byte, the first of
them the first one of the run or the one after a refused byte. -/
theorem auSetup_termina (w : ℕ → In) (t : ℕ) :
    (en w t).ep = .e5 ↔
      ∃ c, c + 59392 ≤ t ∧ (c = 0 ∨ ∃ r, c = r + 1 ∧ Rechaza (en w r) (w r)) ∧
        ∀ x, c ≤ x → x < c + 59392 → ¬ Rechaza (en w x) (w x) :=
  falta_zero.symm.trans (cuenta_atras.zero_iff inv_reset falta_reset t)

/-! ## A slave that waits for a start -/

/-- The controller sends the first byte of a word with no start before. -/
inductive Sorda : St → Prop where
  | espera {c} : 128 ≤ c.toNat → Sorda ⟨.e0, 0, 0, c, false⟩
  | inicio {c} : 128 ≤ c.toNat → Sorda ⟨.e1, 0, 0, c, false⟩
  | bit {n c} (mic) : n < 8 → Sorda ⟨.e1, n + 1, 0, c, bit 0 mic n⟩
  | baja {c} (mic) : c.toNat < 128 → Sorda ⟨.e2, 8, 0, c, AuSetup.bit 0 mic 7⟩

/-- If its byte is refused, there is no start again. -/
lemma Sorda.clk {s : St} {i : In} (h : Sorda s) (refused : s.ep = .e2 → i.esclavo = true) :
    Sorda (clk s i) := by
  have step := clk_step s i
  generalize AuSetup.clk s i = s' at step
  cases step with
  | cuenta h5 hu hd =>
    cases h with
    | espera hc => exact .espera (toNat_alta hc (hd nofun))
    | inicio hc => exact .inicio (toNat_alta hc (hd nofun))
    | bit mic hn => exact .bit mic hn
    | baja mic hc => exact .baja mic (toNat_baja hc (hu rfl))
  | inicio =>
    cases h with
    | espera hc => exact .inicio (by decide)
  | bit hn =>
    cases h with
    | inicio hc => exact .bit i.micLin (by decide)
    | bit mic lt => exact .bit i.micLin (by omega)
  | libera hn =>
    cases h with
    | inicio hc => exact absurd hn (by decide)
    | @bit n c mic lt =>
      obtain rfl : n = 7 := by omega
      exact .baja mic (by decide)
  | nack hs =>
    cases h with
    | baja mic hc =>
      have low : AuSetup.bit 0 mic 7 = false := bit_mic 0 mic (.inl rfl)
      rw [low]
      exact .espera (by decide)
  | ack hs => exact absurd (refused rfl) (by rw [hs]; decide)
  | byte | cierre | palabra | final | fin => cases h

variable {w : ℕ → In}

/-- There is no start while it lasts. -/
lemma Sorda.no_start {t : ℕ} (h : Sorda (en w t)) : ¬ Start w t := by
  rintro ⟨high, high', one, zero⟩
  rw [sclk_en] at high high'
  rw [sdat_en] at one zero
  have step := clk_step (en w t) (w t)
  change i2cSclk (AuSetup.clk (en w t) (w t)) = true at high'
  change i2cSdat (AuSetup.clk (en w t) (w t)) (w (t + 1)) = false at zero
  generalize en w t = s at *
  generalize AuSetup.clk s (w t) = s' at *
  cases step with
  | cuenta h5 hu hd =>
    cases h with
    | espera hc => cases one
    | inicio hc => cases one
    | bit mic hn => exact absurd (one.symm.trans zero) (by decide)
    | baja mic hc => exact absurd ((sclk_baja hc).symm.trans high) (by decide)
  | inicio =>
    cases h with
    | espera hc => cases one
  | bit | libera => exact absurd (sclk_00.symm.trans high') (by decide)
  | nack | ack => exact absurd (sclk_7F.symm.trans high) (by decide)
  | byte | cierre | palabra | final | fin => cases h

/-- The slave acknowledges no byte after cycle `r` unless it has seen a start since. -/
def Atento (w : ℕ → In) (r : ℕ) : Prop :=
  ∀ t, r < t → libre w t = true → (w t).esclavo = false → ∃ c, r < c ∧ c < t ∧ Start w c

/-- After a refused byte that ends in 0, such a slave sees no start. -/
lemma sorda_run {r n a : ℕ} (h : en w r = ⟨.e2, n, a, 0x7F#8, false⟩) (nack : (w r).esclavo = true)
    (atento : Atento w r) (t : ℕ) (lt : r < t) : Sorda (en w t) ∧ ∀ c, r < c → c < t → ¬ Start w c := by
  induction lt with
  | refl =>
    rw [en_succ h, clk_nack nack]
    exact ⟨.espera (by decide), fun c lo hi => absurd hi (Nat.not_lt_of_le lo)⟩
  | @step t lt ih =>
    obtain ⟨sorda, quiet⟩ := ih
    refine ⟨sorda.clk fun e2 => ?_, fun c lo hi => ?_⟩
    · cases answer : (w t).esclavo with
      | true => rfl
      | false =>
        obtain ⟨c, lo, hi, start⟩ := atento t lt (by simp [setbitz, e2]) answer
        exact absurd start (quiet c lo hi)
    · rcases Nat.lt_succ_iff_lt_or_eq.mp hi with lt' | rfl
      · exact quiet c lo lt'
      · exact sorda.no_start

/-- If a slave that waits for a start refuses a byte that ends in 0, such as its address, there is no other
start and the configuration never ends. -/
theorem auSetup_sorda (w : ℕ → In) (r : ℕ) (answer : (en w r).ep = .e2 ∧ up (en w r) = true)
    (zero : (en w r).sdat = false) (nack : (w r).esclavo = true) (atento : Atento w r) (t : ℕ)
    (lt : r < t) : ¬ Start w t ∧ (en w t).ep ≠ .e5 := by
  have h : en w r = ⟨.e2, (en w r).cbits, (en w r).caddr, 0x7F#8, false⟩ := by
    generalize en w r = s at answer zero
    obtain ⟨ep, n, a, c, d⟩ := s
    obtain ⟨e2, fin⟩ := answer
    obtain rfl : ep = .e2 := e2
    obtain rfl : c = 0x7F#8 := of_decide_eq_true fin
    obtain rfl : d = false := zero
    rfl
  have sorda := (sorda_run h nack atento t lt).1
  refine ⟨sorda.no_start, fun e5 => ?_⟩
  generalize en w t = s at sorda e5
  cases sorda with
  | _ => cases e5

/-- The address is refused in cycle 2431. -/
theorem auSetup_sorda_ausente : ¬ Start ausente 60000 ∧ (en ausente 60000).ep ≠ .e5 := by
  have h := en_primera ausente
  refine auSetup_sorda ausente 2431 ⟨?_, ?_⟩ ?_ rfl (fun t _ _ ack => by cases ack) 60000 (by decide)
  · rw [h]
  · rw [h]
    rfl
  · rw [h]

end AuSetup
