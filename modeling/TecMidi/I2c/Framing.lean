import TecMidi.I2c.Session

/-!
# Start and stop conditions of `au_setup`

A start is a falling edge of the line while the clock is high, and a stop a rising one. `au_setup` makes
them by holding the clock high for one more phase when it leaves `e0` and `e4`. A start needs the line to
be high before, and the stop of the last word is not given that phase: `enmarcado_iff` says for which
answers of the slave every word has both.
-/

namespace AuSetup
open Sync

section Conditions
variable (w : ℕ → In)

/-- A start condition at the end of a cycle. -/
def Start (t : ℕ) : Prop :=
  sclk w t = true ∧ sclk w (t + 1) = true ∧ sdat w t = true ∧ sdat w (t + 1) = false

/-- A stop condition at the end of a cycle. -/
def Stop (t : ℕ) : Prop :=
  sclk w t = true ∧ sclk w (t + 1) = true ∧ sdat w t = false ∧ sdat w (t + 1) = true

/-- The words are framed. -/
structure Enmarcado : Prop where
  /-- Before its first bit is clocked, and since the word before, a word has its start. -/
  start : ∀ r a, pulso w r = some (.bit a 0) →
    ∃ c < r, Start w c ∧ ∀ x, c < x → x ≤ r → (en w x).ep = .e0 ∨ (en w x).ep = .e1
  /-- When its three bytes have been acknowledged, a word has its stop, before the next word begins or
  the controller comes to its end. -/
  stop : ∀ t, (en w t).ep = .e3 → (en w (t + 1)).ep = .e4 →
    ∃ c, t < c ∧ Stop w c ∧ ∀ x, t < x → x ≤ c → (en w x).ep = .e4 ∨ (en w x).ep = .e0

end Conditions

/-- The answers of the slave that keep the frame: a byte is not acknowledged only if its last bit is 1,
and the last byte of the last word is not acknowledged. -/
def Seguro (s : St) (i : In) : Prop :=
  s.ep = .e2 → up s = true →
    (i.esclavo = true → bit s.caddr false (s.cbits - 1) = true) ∧
    (i.esclavo = false → s.cbits = 24 → s.caddr ≠ laddr)

/-- The last bit of a byte does not depend on `mic_lin`. -/
lemma bit_mic (a : ℕ) (m : Bool) {n : ℕ} (h : n = 7 ∨ n = 15 ∨ n = 23) : bit a m n = bit a false n := by
  cases m with
  | false => rfl
  | true =>
    match a with
    | 0 | 1 | 2 | 4 | 5 | 6 => rfl
    | 3 => rcases h with rfl | rfl | rfl <;> rfl
    | _ + 7 => rfl

/-- What safe answers keep: the line is high before a start, and the last word is not complete. -/
structure Bien (s : St) : Prop where
  alta : s.ep = .e0 → s.sdat = true
  falta : s.ep = .e3 → s.cbits = 24 → s.caddr ≠ laddr

/-- After reset the line is high. -/
lemma bien_reset : Bien reset := ⟨fun _ => rfl, nofun⟩

/-- Every edge with a safe answer keeps it so. -/
lemma Bien.clk {s : St} {i : In} (h : Bien s) (inv : Inv s) (seguro : Seguro s i) :
    Bien (clk s i) := by
  have step := clk_step s i
  generalize AuSetup.clk s i = s' at step
  cases step with
  | cuenta h5 hu hd => exact ⟨h.alta, h.falta⟩
  | nack hs =>
    cases inv with
    | baja mic ha hn hc =>
      refine ⟨fun _ => ?_, nofun⟩
      exact (bit_mic _ mic hn).trans ((seguro rfl rfl).1 hs)
  | ack hs => exact ⟨nofun, fun _ h24 => (seguro rfl rfl).2 hs h24⟩
  | palabra ha => exact ⟨fun _ => rfl, nofun⟩
  | inicio | bit | libera | byte | cierre | final | fin => exact ⟨nofun, nofun⟩

variable {w : ℕ → In}

/-- The invariant of the runs whose answers are all safe. -/
lemma bien_run (seguro : ∀ t, Seguro (en w t) (w t)) (t : ℕ) : Bien (en w t) := by
  induction t with
  | zero => exact bien_reset
  | succ t ih => exact ih.clk (inv_run w t) (seguro t)

/-! ## Safe answers -/

/-- When a word begins the line falls with the clock high. -/
lemma start_inicio {t : ℕ} {n a : ℕ} (h : en w t = ⟨.e0, n, a, 0xFF#8, true⟩) : Start w t := by
  have sig : en w (t + 1) = ⟨.e1, n, a, 0x80#8, false⟩ := (en_succ h).trans clk_inicio
  refine ⟨?_, ?_, ?_, ?_⟩
  · rw [sclk_en, h]
    exact sclk_FF
  · rw [sclk_en, sig]
    exact sclk_80
  · rw [sdat_en, h]
    rfl
  · rw [sdat_en, sig]
    rfl

/-- With safe answers, up to its first bit a word has its start behind it. -/
lemma start_run (seguro : ∀ t, Seguro (en w t) (w t)) (t : ℕ) (h1 : (en w t).ep = .e1)
    (hn : (en w t).cbits ≤ 1) :
    ∃ c < t, Start w c ∧ ∀ x, c < x → x ≤ t → (en w x).ep = .e0 ∨ (en w x).ep = .e1 := by
  induction t with
  | zero => cases h1
  | succ t ih =>
    -- the start of the cycle before, if there is one, is still that of this word
    have go (h1' : (en w t).ep = .e1) (hn' : (en w t).cbits ≤ 1) :
        ∃ c < t + 1, Start w c ∧ ∀ x, c < x → x ≤ t + 1 → (en w x).ep = .e0 ∨ (en w x).ep = .e1 := by
      obtain ⟨c, lt, start, window⟩ := ih h1' hn'
      refine ⟨c, Nat.lt_succ_of_lt lt, start, fun x lo hi => ?_⟩
      rcases Nat.lt_or_eq_of_le hi with lt' | rfl
      · exact window x lo (Nat.le_of_lt_succ lt')
      · exact .inr h1
    have step := clk_step (en w t) (w t)
    have bien := bien_run seguro t
    have inv := inv_run w t
    have start {n a : ℕ} := start_inicio (w := w) (t := t) (n := n) (a := a)
    have e1 := h1
    change (clk (en w t) (w t)).ep = .e1 at h1
    change (clk (en w t) (w t)).cbits ≤ 1 at hn
    generalize en w t = s at *
    generalize clk s (w t) = s' at *
    cases step with
    | cuenta h5 hu hd => exact go h1 hn
    | @inicio n a d =>
      obtain rfl : d = true := bien.alta rfl
      refine ⟨t, Nat.lt_succ_self t, start rfl, fun x lo hi => .inr ?_⟩
      obtain rfl : x = t + 1 := Nat.le_antisymm hi lo
      exact e1
    | bit => exact go rfl (Nat.le_of_succ_le hn)
    | byte =>
      cases inv with
      | alta mic ha hn' hc => cases Nat.le_of_succ_le_succ hn
    | _ => cases h1

/-- When three bytes have been acknowledged the word is closed in the next 256 cycles. -/
lemma cierre_run {t : ℕ} (h3 : (en w t).ep = .e3) (h4 : (en w (t + 1)).ep = .e4) :
    (en w t).cbits = 24 ∧
      ∀ k < 256, en w (t + 1 + k) = ⟨.e4, 24, (en w t).caddr, BitVec.ofNat 8 k, false⟩ := by
  have step := clk_step (en w t) (w t)
  have next : clk (en w t) (w t) = en w (t + 1) := rfl
  have e4 := h4
  change (clk (en w t) (w t)).ep = .e4 at h4
  generalize en w t = s at *
  generalize clk s (w t) = s' at *
  cases step with
  | cuenta => cases h3.symm.trans h4
  | @cierre a d =>
    exact ⟨rfl, fun k hk => en_baja next.symm (by simp) (by omega) (by simp)⟩
  | _ => cases h4

/-- With safe answers a word that has been acknowledged has its stop. -/
lemma stop_run (seguro : ∀ t, Seguro (en w t) (w t)) {t : ℕ} (h3 : (en w t).ep = .e3)
    (h4 : (en w (t + 1)).ep = .e4) :
    ∃ c, t < c ∧ Stop w c ∧ ∀ x, t < x → x ≤ c → (en w x).ep = .e4 ∨ (en w x).ep = .e0 := by
  obtain ⟨h24, run⟩ := cierre_run h3 h4
  have ne := (bien_run seguro t).falta h3 h24
  have last := run 255 (by omega)
  have next : en w (t + 1 + 255 + 1) = ⟨.e0, 0, (en w t).caddr + 1, 0x80#8, true⟩ :=
    (en_succ last).trans (clk_palabra ne)
  refine ⟨t + 1 + 255, by omega, ⟨?_, ?_, ?_, ?_⟩, fun x lo hi => .inl ?_⟩
  · rw [sclk_en, last]
    exact sclk_FF
  · rw [sclk_en, next]
    exact sclk_80
  · rw [sdat_en, last]
    rfl
  · rw [sdat_en, next]
    rfl
  · obtain ⟨k, rfl⟩ := Nat.exists_eq_add_of_le lo
    rw [run k (by omega)]

/-! ## Other answers -/

/-- After a byte that ends in 0 and is not acknowledged, the line is low until the next word begins. -/
lemma nack_run {t n a : ℕ} (h : en w t = ⟨.e2, n, a, 0x7F#8, false⟩) (nack : (w t).esclavo = true) :
    (∀ k < 128, en w (t + 1 + k) = ⟨.e0, 0, 0, BitVec.ofNat 8 (128 + k), false⟩) ∧
    (∀ k < 128, en w (t + 129 + k) = ⟨.e1, 0, 0, BitVec.ofNat 8 (128 + k), false⟩) ∧
    ∀ k < 128, en w (t + 257 + k) = ⟨.e1, 1, 0, BitVec.ofNat 8 k, bit 0 (w (t + 256)).micLin 0⟩ := by
  have e0 : en w (t + 1) = ⟨.e0, 0, 0, 0x80#8, false⟩ := (en_succ h).trans (clk_nack nack)
  have espera (k : ℕ) (hk : k < 128) :
      en w (t + 1 + k) = ⟨.e0, 0, 0, BitVec.ofNat 8 (128 + k), false⟩ :=
    en_cuenta e0 (by simp) (by omega) (by simp)
  have e1 : en w (t + 129) = ⟨.e1, 0, 0, 0x80#8, false⟩ :=
    (en_succ (espera 127 (by omega))).trans clk_inicio
  have inicio (k : ℕ) (hk : k < 128) :
      en w (t + 129 + k) = ⟨.e1, 0, 0, BitVec.ofNat 8 (128 + k), false⟩ :=
    en_cuenta e1 (by simp) (by omega) (by simp)
  have primero : en w (t + 257) = ⟨.e1, 1, 0, 0#8, bit 0 (w (t + 256)).micLin 0⟩ :=
    (en_succ (inicio 127 (by omega))).trans (clk_bit (by decide))
  exact ⟨espera, inicio, fun k hk => en_baja primero (by simp) (by omega) (by simp)⟩

/-- Then the next word has no start. -/
lemma nack_sin_start {t n a : ℕ} (h : en w t = ⟨.e2, n, a, 0x7F#8, false⟩)
    (nack : (w t).esclavo = true) : ¬ Enmarcado w := by
  intro marco
  obtain ⟨espera, inicio, primero⟩ := nack_run h nack
  have pulse : pulso w (t + 257 + 127) = some (.bit 0 0) := by
    have sig : clk (en w (t + 257 + 127)) (w (t + 257 + 127)) =
        ⟨.e1, 1, 0, 0x80#8, bit 0 (w (t + 256)).micLin 0⟩ := by
      rw [primero 127 (by omega)]
      exact clk_cuenta nofun nofun fun _ => (by decide : 0x7F#8 ≠ 0xFF#8)
    rw [pulso, pulsoDe, sig, primero 127 (by omega)]
    exact if_pos ⟨sclk_7F, sclk_80⟩
  obtain ⟨c, lt, ⟨high, -, one, -⟩, window⟩ := marco.start _ 0 pulse
  rw [sclk_en] at high
  rw [sdat_en] at one
  have le : t ≤ c := by
    by_contra before
    have at_t := window t (by omega) (by omega)
    rw [h] at at_t
    rcases at_t with e0 | e1
    · cases e0
    · cases e1
  obtain ⟨k, rfl⟩ := Nat.exists_eq_add_of_le le
  rcases (by omega : k = 0 ∨ (1 ≤ k ∧ k ≤ 128) ∨ (129 ≤ k ∧ k ≤ 256) ∨ 257 ≤ k) with
    rfl | ⟨lo, hi⟩ | ⟨lo, hi⟩ | lo
  · rw [Nat.add_zero, h] at high
    exact absurd (sclk_7F.symm.trans high) (by decide)
  · have low := espera (k - 1) (by omega)
    rw [show t + 1 + (k - 1) = t + k by omega] at low
    rw [low] at one
    cases one
  · have low := inicio (k - 129) (by omega)
    rw [show t + 129 + (k - 129) = t + k by omega] at low
    rw [low] at one
    cases one
  · have low := primero (k - 257) (by omega)
    rw [show t + 257 + (k - 257) = t + k by omega] at low
    rw [low, sclk_baja (by rw [BitVec.toNat_ofNat]; omega)] at high
    cases high

/-- When the last word has been acknowledged, the clock falls as the line rises. -/
lemma ultima_sin_stop {t : ℕ} {d : Bool} (h : en w t = ⟨.e2, 24, laddr, 0x7F#8, d⟩)
    (ack : (w t).esclavo = false) : ¬ Enmarcado w := by
  intro marco
  have e3 : en w (t + 1) = ⟨.e3, 24, laddr, 0x80#8, d⟩ := (en_succ h).trans (clk_ack ack)
  have alta : en w (t + 1 + 127) = ⟨.e3, 24, laddr, 0xFF#8, d⟩ :=
    en_cuenta (c := 128) (k := 127) e3 (by simp) (by omega) (by simp)
  have e4 : en w (t + 1 + 127 + 1) = ⟨.e4, 24, laddr, 0#8, false⟩ := (en_succ alta).trans clk_cierre
  have h3 : (en w (t + 1 + 127)).ep = .e3 := by rw [alta]
  have h4 : (en w (t + 1 + 127 + 1)).ep = .e4 := by rw [e4]
  obtain ⟨-, run⟩ := cierre_run h3 h4
  obtain ⟨c, lt, ⟨-, high, -, one⟩, window⟩ := marco.stop _ h3 h4
  rw [alta] at run
  have fin : en w (t + 1 + 127 + 1 + 255 + 1) = ⟨.e5, 24, laddr, 0#8, true⟩ :=
    (en_succ (run 255 (by omega))).trans clk_final
  have le : c ≤ t + 1 + 127 + 1 + 255 := by
    by_contra after
    have at_fin := window (t + 1 + 127 + 1 + 255 + 1) (by omega) (by omega)
    rw [fin] at at_fin
    rcases at_fin with e4 | e0
    · cases e4
    · cases e0
  rw [sclk_en] at high
  rw [sdat_en] at one
  rcases Nat.lt_or_eq_of_le le with lt' | rfl
  · have low := run (c + 1 - (t + 1 + 127 + 1)) (by omega)
    rw [show t + 1 + 127 + 1 + (c + 1 - (t + 1 + 127 + 1)) = c + 1 by omega] at low
    rw [low] at one
    cases one
  · rw [fin] at high
    exact absurd (sclk_00.symm.trans high) (by decide)

/-- Every word is framed by a start and a stop if and only if no byte that ends in 0 is refused and the
last word is never complete. -/
theorem enmarcado_iff (w : ℕ → In) : Enmarcado w ↔ ∀ t, Seguro (en w t) (w t) := by
  constructor
  · intro marco t h2 hu
    have inv := inv_run w t
    generalize eq : en w t = s at h2 hu inv
    cases inv with
    | @baja n a c mic ha hn hc =>
      obtain rfl : c = 0x7F#8 := of_decide_eq_true hu
      refine ⟨fun nack => ?_, fun ack h24 hl => ?_⟩
      · rw [Nat.add_sub_cancel, ← bit_mic a mic hn]
        cases d : bit a mic n with
        | true => rfl
        | false =>
          rw [d] at eq
          exact absurd marco (nack_sin_start eq nack)
      · obtain rfl : n = 23 := Nat.succ.inj h24
        obtain rfl : a = laddr := hl
        exact absurd marco (ultima_sin_stop eq ack)
    | _ => cases h2
  · intro seguro
    refine ⟨fun r a pulse => ?_, fun t h3 h4 => stop_run seguro h3 h4⟩
    obtain ⟨mic, eq⟩ := pulso_bit (inv_run w r) pulse
    exact start_run seguro r (congrArg St.ep eq) (Nat.le_of_eq (congrArg St.cbits eq))

/-- A slave that never acknowledges. -/
def ausente : ℕ → In := fun _ => ⟨false, true⟩

/-- The address of the codec ends in 0: after it is refused there is no start. -/
theorem not_enmarcado : ¬ Enmarcado ausente :=
  nack_sin_start (en_primera ausente) rfl

end AuSetup
