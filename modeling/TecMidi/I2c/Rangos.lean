import TecMidi.I2c.Session

/-!
# The ranges of `au_setup`

The counters stay in their declared ranges, but the data bit `dbit <= dato(cbits)` is evaluated whenever
`cbits` or `dato` changes, and `dato` has no element 24. `rangos_iff` says in which runs that element is
never asked for: those in which no second byte of a word is acknowledged, since the third one is then sent
up to its last bit.
-/

namespace AuSetup
open Sync

section Conditions
variable (w : ℕ → In)

/-- The assignment of `dbit` is evaluated in a cycle: at first, and when `cbits` or `dato` has changed. -/
def Evalua : ℕ → Prop
  | 0 => True
  | t + 1 => (en w (t + 1)).cbits ≠ (en w t).cbits ∨
      dato (en w (t + 1)).caddr (w (t + 1)).micLin ≠ dato (en w t).caddr (w t).micLin

/-- The counters and the index of `dato` are in range. -/
structure Rangos : Prop where
  contadores : ∀ t, (en w t).cbits ≤ 24 ∧ (en w t).caddr ≤ laddr
  indice : ∀ t, Evalua w t → (en w t).cbits ≤ 23

end Conditions

/-- The slave acknowledges the second byte of a word. -/
def Segundo (s : St) (i : In) : Prop :=
  s.ep = .e2 ∧ up s = true ∧ s.cbits = 16 ∧ i.esclavo = false

/-- The invariant bounds both counters. -/
lemma Inv.contadores {s : St} (inv : Inv s) : s.cbits ≤ 24 ∧ s.caddr ≤ laddr := by
  cases inv with
  | espera ha hc => exact ⟨Nat.zero_le 24, ha⟩
  | inicio ha hc => exact ⟨Nat.zero_le 24, ha⟩
  | bit mic ha hn => exact ⟨hn, ha⟩
  | baja mic ha hn hc => exact ⟨show _ + 1 ≤ 24 by omega, ha⟩
  | alta mic ha hn hc => exact ⟨show _ + 1 ≤ 24 by omega, ha⟩
  | cierre ha => exact ⟨Nat.le_refl 24, ha⟩
  | fin => exact ⟨Nat.le_refl 24, Nat.le_refl laddr⟩

/-- Without an acknowledged second byte, a word goes no further. -/
structure Corta (s : St) : Prop where
  bits : s.cbits ≤ 16
  ack : s.ep = .e3 → s.cbits ≠ 16

/-- Without that acknowledgement every edge keeps the word short. -/
lemma Corta.clk {s : St} {i : In} (corta : Corta s) (no : ¬ Segundo s i) : Corta (clk s i) := by
  have step := clk_step s i
  generalize AuSetup.clk s i = s' at step
  obtain ⟨bits, ack⟩ := corta
  cases step with
  | cuenta h5 hu hd => exact ⟨bits, ack⟩
  | inicio => exact ⟨bits, nofun⟩
  | bit hn =>
    simp only at bits
    exact ⟨by simp only; omega, nofun⟩
  | libera hn => exact ⟨bits, nofun⟩
  | nack hs => exact ⟨Nat.zero_le 16, nofun⟩
  | ack hs => exact ⟨bits, fun _ sixteen => no ⟨rfl, rfl, sixteen, hs⟩⟩
  | byte hn =>
    have ne := ack rfl
    simp only at bits ne
    exact ⟨by simp only; omega, nofun⟩
  | cierre => exact absurd bits (by simp)
  | palabra ha => exact ⟨Nat.zero_le 16, nofun⟩
  | final => exact ⟨bits, nofun⟩
  | fin => exact ⟨bits, nofun⟩

variable {w : ℕ → In}

/-- The invariant of the runs in which no second byte is acknowledged. -/
lemma corta_run (no : ∀ t, ¬ Segundo (en w t) (w t)) (t : ℕ) : Corta (en w t) := by
  induction t with
  | zero => exact ⟨Nat.zero_le 16, nofun⟩
  | succ t ih => exact ih.clk (no t)

/-- After the second byte has been acknowledged all the bits of the third one are loaded. -/
lemma segundo_run {t : ℕ} (ack : Segundo (en w t) (w t)) : ∃ u, (en w u).cbits = 24 := by
  obtain ⟨e2, fin, sixteen, low⟩ := ack
  obtain ⟨n, a, d, eq⟩ : ∃ n a d, en w t = ⟨.e2, n, a, 0x7F#8, d⟩ := by
    generalize en w t = s at e2 fin
    obtain ⟨ep, n, a, c, d⟩ := s
    obtain rfl : ep = .e2 := e2
    obtain rfl : c = 0x7F#8 := of_decide_eq_true fin
    exact ⟨n, a, d, rfl⟩
  obtain rfl : n = 16 := by rw [eq] at sixteen; exact sixteen
  have e3 := (en_succ eq).trans (clk_ack low)
  have last : en w (t + 1 + 127) = ⟨.e3, 16, a, 0xFF#8, d⟩ :=
    en_cuenta (c := 128) (k := 127) e3 nofun (by omega) nofun
  have e1 := (en_succ last).trans (clk_byte (by decide))
  obtain ⟨d', run⟩ := en_bits (k := 7) e1 fun j lt => by omega
  exact ⟨_, congrArg St.cbits run⟩

/-- After the first byte has been acknowledged the answer to the second one comes 2304 cycles later. -/
lemma primero_run {t a : ℕ} {d : Bool} (h : en w t = ⟨.e2, 8, a, 0x7F#8, d⟩) (ack : (w t).esclavo = false) :
    ∃ d, en w (t + 2304) = ⟨.e2, 16, a, 0x7F#8, d⟩ := by
  have e3 := (en_succ h).trans (clk_ack ack)
  have last : en w (t + 1 + 127) = ⟨.e3, 8, a, 0xFF#8, d⟩ :=
    en_cuenta (c := 128) (k := 127) e3 nofun (by omega) nofun
  have e1 := (en_succ last).trans (clk_byte (by decide))
  obtain ⟨d', run⟩ := en_bits (k := 7) e1 fun j lt => by omega
  have e2 := (en_succ (en_baja (k := 255) run nofun (Nat.le_refl 255) nofun)).trans
    (clk_libera (.inr (.inl rfl)))
  exact ⟨d', en_baja (k := 127) e2 nofun (by omega) fun _ => Nat.le_refl 127⟩

/-- Whenever `cbits` is 24 it has been evaluated with that value. -/
lemma evalua_24 {u : ℕ} (full : (en w u).cbits = 24) : ∃ t, Evalua w t ∧ (en w t).cbits = 24 := by
  induction u with
  | zero => cases full
  | succ u ih =>
    by_cases before : (en w u).cbits = 24
    · exact ih before
    · exact ⟨u + 1, .inl (by rw [full]; exact Ne.symm before), full⟩

/-- The counters and the index of `dato` stay in range in exactly the runs in which no second byte of a word
is acknowledged. -/
theorem rangos_iff (w : ℕ → In) : Rangos w ↔ ∀ t, ¬ Segundo (en w t) (w t) := by
  constructor
  · intro rangos t ack
    obtain ⟨u, full⟩ := segundo_run ack
    obtain ⟨v, evaluated, full'⟩ := evalua_24 full
    have le := rangos.indice v evaluated
    omega
  · intro no
    refine ⟨fun t => (inv_run w t).contadores, fun t _ => ?_⟩
    exact Nat.le_trans (corta_run no t).bits (by decide)

/-- A slave that always acknowledges. -/
def presente : ℕ → In := fun _ => ⟨false, false⟩

/-- The element 24 of `dato` is asked for. -/
theorem not_rangos : ¬ Rangos presente := by
  intro rangos
  obtain ⟨d, answer⟩ := primero_run (en_primera presente) rfl
  have ack : Segundo (en presente (2431 + 2304)) (presente (2431 + 2304)) := by
    rw [answer]
    exact ⟨rfl, rfl, rfl, rfl⟩
  obtain ⟨u, full⟩ := segundo_run ack
  obtain ⟨v, evaluated, full'⟩ := evalua_24 full
  have le := rangos.indice v evaluated
  omega

end AuSetup
