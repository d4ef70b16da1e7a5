import TecMidi.I2c.AuSetup

/-!
# The words that `au_setup` sends

A run of `au_setup` is read off the clock of the bus: every rising edge of `i2c_sclk` is a `Pulso`, with
which the master sends a bit, leaves the line to the slave, or prepares a stop. A word is sent as a fixed
list of pulses (`palabra`), and what has been sent at any time is a `Sesion`: after the last byte that
was not acknowledged, the words from address 0 on, each one complete but for the last.

`pos` is the number of pulses of the current word, computed from the registers, and `avance` what an edge
does to it. `auSetup_configura` collects what a run sends.
-/

namespace AuSetup
open Sync

/-- A pulse of the bus clock. -/
inductive Pulso where
  /-- Bit `n` of the word for the address `a`. -/
  | bit (a n : ℕ)
  /-- The answer of the slave. -/
  | ranura (nack : Bool)
  /-- The line is held low before a stop. -/
  | cierre
deriving DecidableEq, Repr

/-- The pulses of a word: three bytes with their answers, and the one before the stop. -/
def palabra (a : ℕ) : List Pulso :=
  (List.range 3).flatMap (fun j => (List.range 8).map (fun i => .bit a (8 * j + i)) ++ [.ranura false]) ++
    [.cierre]

/-- The pulses sent when `k` pulses of the word for the address `a` have been: the words before, from
address 0 on, come after the last byte that was not acknowledged. -/
def Sesion (ps : List Pulso) (a k : ℕ) : Prop :=
  ∃ pre, (pre = [] ∨ ∃ ps, pre = ps ++ [.ranura true]) ∧
    ps = pre ++ (List.range a).flatMap palabra ++ (palabra a).take k

/-- The pulse of an edge, if `i2c_sclk` rises. -/
def pulsoDe (s : St) (i : In) : Option Pulso :=
  if i2cSclk s = false ∧ i2cSclk (clk s i) = true then
    match s.ep with
    | .e1 => some (.bit s.caddr (s.cbits - 1))
    | .e2 => some (.ranura i.esclavo)
    | _ => some .cierre
  else none

/-- The pulses of the current word so far. -/
def pos (s : St) : ℕ :=
  match s.ep with
  | .e0 => 0
  | .e1 => (if i2cSclk s = true then s.cbits else s.cbits - 1) + (s.cbits - 1) / 8
  | .e2 => s.cbits + (s.cbits - 1) / 8
  | .e3 => s.cbits + (s.cbits - 1) / 8 + 1
  | .e4 => if i2cSclk s = true then 28 else 27
  | .e5 => 28

/-- The pulse at a position of a word. -/
def casilla (a k : ℕ) : Pulso :=
  if k = 27 then .cierre else if k % 9 = 8 then .ranura false else .bit a (k - k / 9)

/-- The pulses of a word by their positions. -/
lemma palabra_eq (a : ℕ) : palabra a = (List.range 28).map (casilla a) := rfl

/-- The first `k + 1` pulses of a word are the first `k` and the one at position `k`. -/
lemma take_palabra (a : ℕ) {k : ℕ} (h : k < 28) :
    (palabra a).take (k + 1) = (palabra a).take k ++ [casilla a k] := by
  have len : k < (palabra a).length := h
  have get : (palabra a)[k] = casilla a k := by
    simp [palabra_eq]
  rw [List.take_succ_eq_append_getElem len, get]

/-- The bits, the answers and the stop of a word. -/
lemma casilla_bit (a : ℕ) {n : ℕ} (h : n < 24) : casilla a (n + n / 8) = .bit a n := by
  have ne : n + n / 8 ≠ 27 := by omega
  have mod : (n + n / 8) % 9 ≠ 8 := by omega
  have sub : n + n / 8 - (n + n / 8) / 9 = n := by omega
  rw [casilla, if_neg ne, if_neg mod, sub]

/-- After every eight bits comes an answer. -/
lemma casilla_ranura (a : ℕ) {n : ℕ} (h : n = 7 ∨ n = 15 ∨ n = 23) :
    casilla a (n + 1 + n / 8) = .ranura false := by
  rcases h with rfl | rfl | rfl <;> rfl

namespace Sesion
variable {ps : List Pulso} {a k : ℕ}

/-- At first nothing has been sent. -/
lemma nil : Sesion [] 0 0 := ⟨[], .inl rfl, rfl⟩

/-- One more pulse of the current word has been sent. -/
lemma pulso (h : Sesion ps a k) (lt : k < 28) : Sesion (ps ++ [casilla a k]) a (k + 1) := by
  obtain ⟨pre, nack, rfl⟩ := h
  exact ⟨pre, nack, by rw [take_palabra a lt, List.append_assoc _ _ [_]]⟩

/-- With its last pulse a word is complete, and the next one begins. -/
lemma palabra (h : Sesion ps a 28) : Sesion ps (a + 1) 0 := by
  obtain ⟨pre, nack, rfl⟩ := h
  refine ⟨pre, nack, ?_⟩
  rw [List.range_succ, List.flatMap_append, List.take_of_length_le (Nat.le_refl 28)]
  simp

/-- After a refused byte the session begins again. -/
lemma nack (ps : List Pulso) : Sesion (ps ++ [.ranura true]) 0 0 :=
  ⟨ps ++ [.ranura true], .inr ⟨ps, rfl⟩, by simp⟩

end Sesion

/-- What an edge does to the position in the session. -/
inductive Avance (s s' : St) : Option Pulso → Prop where
  | nada : s'.caddr = s.caddr → pos s' = pos s → Avance s s' none
  | palabra : pos s = 28 → s'.caddr = s.caddr + 1 → pos s' = 0 → Avance s s' none
  | pulso {p} : p = casilla s.caddr (pos s) → pos s < 28 → s'.caddr = s.caddr → pos s' = pos s + 1 →
      Avance s s' (some p)
  | nack : s'.caddr = 0 → pos s' = 0 → Avance s s' (some (.ranura true))

section Position
variable {n a : ℕ} {c : BitVec 8} {d : Bool}

/-- The position within a byte, by the phase of the clock. -/
lemma pos_bit_alta (h : i2cSclk ⟨.e1, n, a, c, d⟩ = true) :
    pos ⟨.e1, n, a, c, d⟩ = n + (n - 1) / 8 := by
  simp only [pos, h, if_pos]

/-- While the clock is low the bit on the line has not been sent yet. -/
lemma pos_bit_baja (h : i2cSclk ⟨.e1, n, a, c, d⟩ = false) :
    pos ⟨.e1, n, a, c, d⟩ = n - 1 + (n - 1) / 8 := by
  simp [pos, h]

/-- In `e4` with the clock high the last pulse of the word has been sent. -/
lemma pos_cierre_alta (h : i2cSclk ⟨.e4, n, a, c, d⟩ = true) : pos ⟨.e4, n, a, c, d⟩ = 28 := by
  simp only [pos, h, if_pos]

/-- In `e4` with the clock low it has not been sent. -/
lemma pos_cierre_baja (h : i2cSclk ⟨.e4, n, a, c, d⟩ = false) : pos ⟨.e4, n, a, c, d⟩ = 27 := by
  simp [pos, h]

/-- In the answer slot all bits of the byte have been sent. -/
lemma pos_ranura : pos ⟨.e2, n, a, c, d⟩ = n + (n - 1) / 8 := rfl

/-- After the answer slot the answer has been taken too. -/
lemma pos_ack : pos ⟨.e3, n, a, c, d⟩ = n + (n - 1) / 8 + 1 := rfl

/-- A step that does not raise the clock has no pulse. -/
lemma pulsoDe_none {s : St} {i : In} (h : i2cSclk s = true ∨ i2cSclk (clk s i) = false) :
    pulsoDe s i = none := by
  refine if_neg fun rise => ?_
  rcases h with high | low
  · exact absurd (rise.1.symm.trans high) (by decide)
  · exact absurd (low.symm.trans rise.2) (by decide)

end Position

/-- A step of the counter is a pulse in the middle of the count. -/
lemma avance_cuenta {s : St} {i : In} (h : Inv s) (h5 : s.ep ≠ .e5) (hu : s.ep = .e2 → s.ctmp ≠ 0x7F#8)
    (hd : s.ep ≠ .e2 → s.ctmp ≠ 0xFF#8) : Avance s (clk s i) (pulsoDe s i) := by
  have eq := clk_cuenta (i := i) h5 hu hd
  by_cases hm : s.ctmp = 0x7F#8
  · obtain ⟨ep, n, a, c, d⟩ := s
    obtain rfl : c = 0x7F#8 := hm
    rw [pulsoDe, eq, if_pos ⟨sclk_7F, sclk_80⟩]
    cases h with
    | espera ha hc => exact absurd hc (by decide)
    | inicio ha hc => exact absurd hc (by decide)
    | @bit n a c mic ha hn =>
      have before := pos_bit_baja (n := n + 1) (a := a) (d := bit a mic n) sclk_7F
      have after := pos_bit_alta (n := n + 1) (a := a) (d := bit a mic n) sclk_80
      rw [Nat.add_sub_cancel] at before after
      refine .pulso ?_ ?_ rfl ?_
      · rw [before]
        exact (casilla_bit a hn).symm
      · rw [before]
        omega
      · rw [before]
        refine after.trans ?_
        omega
    | baja mic ha hn hc => exact absurd rfl (hu rfl)
    | alta mic ha hn hc => exact absurd hc (by decide)
    | @cierre a c ha =>
      have before := pos_cierre_baja (n := 24) (a := a) (d := false) sclk_7F
      have after := pos_cierre_alta (n := 24) (a := a) (d := false) sclk_80
      refine .pulso ?_ ?_ rfl ?_
      · rw [before]
        rfl
      · rw [before]
        decide
      · rw [before]
        exact after
  · have hFF : s.ctmp ≠ 0xFF#8 := by
      intro hFF
      cases h with
      | @baja n a c mic ha hn hc =>
        obtain rfl : c = 0xFF#8 := hFF
        exact absurd hc (by decide)
      | fin => exact absurd rfl h5
      | _ => exact hd nofun hFF
    obtain ⟨ep, n, a, c, d⟩ := s
    have same : i2cSclk ⟨ep, n, a, c + 1#8, d⟩ = i2cSclk ⟨ep, n, a, c, d⟩ := sclk_cuenta hFF hm
    have quiet : pulsoDe ⟨ep, n, a, c, d⟩ i = none := by
      refine pulsoDe_none ?_
      rw [eq]
      change _ ∨ i2cSclk ⟨ep, n, a, c + 1#8, d⟩ = false
      rw [same]
      cases i2cSclk ⟨ep, n, a, c, d⟩
      · exact .inr rfl
      · exact .inl rfl
    rw [quiet, eq]
    refine .nada rfl ?_
    change pos ⟨ep, n, a, c + 1#8, d⟩ = pos ⟨ep, n, a, c, d⟩
    simp only [pos, same]

/-- The session goes on with every edge. -/
lemma avance {s : St} (h : Inv s) (i : In) : Avance s (clk s i) (pulsoDe s i) := by
  have step := clk_step s i
  generalize eq : clk s i = s' at step
  cases step with
  | cuenta h5 hu hd =>
    rw [← eq]
    exact avance_cuenta h h5 hu hd
  | inicio =>
    cases h with
    | espera ha hc =>
      rw [pulsoDe_none (.inl sclk_FF)]
      exact .nada rfl (pos_bit_alta sclk_80)
  | @bit n a d hn =>
    rw [pulsoDe_none (.inl sclk_FF)]
    refine .nada rfl ?_
    rw [pos_bit_alta sclk_FF, pos_bit_baja sclk_00]
    cases h with
    | inicio ha hc => rfl
    | bit mic ha lt => omega
  | @libera n a d hn =>
    rw [pulsoDe_none (.inl sclk_FF)]
    refine .nada rfl ?_
    rw [pos_bit_alta sclk_FF]
    rfl
  | nack hs =>
    cases h with
    | baja mic ha hn hc =>
      rw [pulsoDe, eq, if_pos ⟨sclk_7F, sclk_80⟩]
      change Avance _ _ (some (.ranura i.esclavo))
      rw [hs]
      exact .nack rfl rfl
  | ack hs =>
    cases h with
    | baja mic ha hn hc =>
      rw [pulsoDe, eq, if_pos ⟨sclk_7F, sclk_80⟩]
      change Avance _ _ (some (.ranura i.esclavo))
      rw [hs]
      refine .pulso (casilla_ranura _ hn).symm ?_ rfl rfl
      rw [pos_ranura]
      omega
  | @byte n a d hn =>
    rw [pulsoDe_none (.inl sclk_FF)]
    refine .nada rfl ?_
    rw [pos_ack, pos_bit_baja sclk_00]
    cases h with
    | alta mic ha hn' hc => omega
  | cierre =>
    rw [pulsoDe_none (.inl sclk_FF)]
    refine .nada rfl ?_
    rw [pos_cierre_baja sclk_00, pos_ack]
  | palabra ha =>
    rw [pulsoDe_none (.inl sclk_FF)]
    exact .palabra (pos_cierre_alta sclk_FF) rfl rfl
  | final =>
    rw [pulsoDe_none (.inl sclk_FF)]
    exact .nada rfl (pos_cierre_alta sclk_FF).symm
  | fin =>
    cases h with
    | fin =>
      rw [pulsoDe_none (.inr (by rw [eq]; exact sclk_00))]
      exact .nada rfl rfl

/-! ## The runs from reset -/

section Runs
variable (w : ℕ → In)

/-- The state in a cycle. -/
abbrev en (t : ℕ) : St := auSetup.run reset w t

/-- The clock of the bus, in a cycle. -/
abbrev sclk (t : ℕ) : Bool := (auSetup.wave reset w t).i2cSclk

/-- The line of the bus, in a cycle. -/
abbrev sdat (t : ℕ) : Bool := (auSetup.wave reset w t).i2cSdat

/-- The master releases the line in a cycle. -/
abbrev libre (t : ℕ) : Bool := setbitz (en w t)

/-- A bit is loaded at the end of a cycle. -/
abbrev carga (t : ℕ) : Bool := ldbit (en w t)

/-- The pulse of a cycle, if the bus clock rises at its end. -/
abbrev pulso (t : ℕ) : Option Pulso := pulsoDe (en w t) (w t)

/-- The line is released at the end of cycle `l` for the answer of the slave: the clock falls, it is low
for 128 cycles and rises; if the slave acknowledges, it is high for 128 cycles and falls, and with that
the master takes the line again; else the master takes the line at once. -/
structure Ranura (l : ℕ) : Prop where
  cae : sclk w l = true
  baja : ∀ k < 128, libre w (l + 1 + k) = true ∧ sclk w (l + 1 + k) = false
  nack : (w (l + 128)).esclavo = true → libre w (l + 129) = false ∧ sclk w (l + 129) = true
  ack : (w (l + 128)).esclavo = false →
    (∀ k < 128, libre w (l + 129 + k) = true ∧ sclk w (l + 129 + k) = true) ∧
      libre w (l + 257) = false ∧ sclk w (l + 257) = false

/-- What `au_setup` sends. -/
structure Configura : Prop where
  /-- At any time the pulses are those of a session, in the word for the current address. -/
  sesion : ∀ t, ∃ k, Sesion (log (pulso w) t) (en w t).caddr k
  /-- With the pulse of a bit, the line has the value that the bit had when it was loaded. -/
  valor : ∀ t a n, pulso w t = some (.bit a n) → (en w t).caddr = a ∧ sdat w t = sdat w (t + 1) ∧
    ∃ l < t, carga w l = true ∧ (∀ x, l < x → x ≤ t → carga w x = false) ∧
      sdat w (t + 1) = bit a (w l).micLin n
  /-- The line is only released for the answers of the slave. -/
  ranura : libre w 0 = false ∧ ∀ l, libre w l = false → libre w (l + 1) = true → Ranura w l
  /-- The controller stops when the eight words have been acknowledged, and the clock stops with it. -/
  final : ∀ t, (en w t).ep = .e5 →
    (∃ pre, (pre = [] ∨ ∃ ps, pre = ps ++ [.ranura true]) ∧
      log (pulso w) t = pre ++ (List.range 8).flatMap palabra) ∧
    ∀ u, t ≤ u → (en w u).ep = .e5 ∧ sclk w u = sclk w t

end Runs

variable {w : ℕ → In}

/-- The bus clock is read off the state. -/
lemma sclk_en (t : ℕ) : sclk w t = i2cSclk (en w t) := rfl

/-- The line is read off the state and the slave. -/
lemma sdat_en (t : ℕ) : sdat w t = i2cSdat (en w t) (w t) := rfl

/-- The invariant in every run. -/
lemma inv_run (w : ℕ → In) (t : ℕ) : Inv (en w t) :=
  Machine.run_invariant inv_reset (fun _ i h => h.clk i) t

/-- The state of the next cycle. -/
lemma en_succ {t : ℕ} {s : St} (h : en w t = s) : en w (t + 1) = clk s (w t) := congrArg (clk · (w t)) h

/-- During a phase only the counter runs. -/
lemma en_cuenta {t n a c k : ℕ} {p : Estado} {d : Bool} (h : en w t = ⟨p, n, a, BitVec.ofNat 8 c, d⟩)
    (h5 : p ≠ .e5) (hk : c + k ≤ 255) (hu : p = .e2 → c + k ≤ 127) :
    en w (t + k) = ⟨p, n, a, BitVec.ofNat 8 (c + k), d⟩ := by
  induction k with
  | zero => exact h
  | succ k ih =>
    have val : (BitVec.ofNat 8 (c + k)).toNat = c + k := by
      rw [BitVec.toNat_ofNat]
      omega
    have step := en_succ (ih (by omega) fun e => by have := hu e; omega)
    rw [clk_cuenta h5 (fun e eq => ?_) fun _ eq => ?_] at step
    · rw [← Nat.add_assoc, ← Nat.add_assoc, BitVec.ofNat_add (c + k) 1]
      exact step
    · have le := hu e
      have top := val.symm.trans (congrArg BitVec.toNat (show BitVec.ofNat 8 (c + k) = 0x7F#8 from eq))
      change c + k = 127 at top
      omega
    · have top := val.symm.trans (congrArg BitVec.toNat (show BitVec.ofNat 8 (c + k) = 0xFF#8 from eq))
      change c + k = 255 at top
      omega

/-- The count from the beginning of a low phase. -/
lemma en_baja {t n a k : ℕ} {p : Estado} {d : Bool} (h : en w t = ⟨p, n, a, 0#8, d⟩) (h5 : p ≠ .e5)
    (hk : k ≤ 255) (hu : p = .e2 → k ≤ 127) : en w (t + k) = ⟨p, n, a, BitVec.ofNat 8 k, d⟩ := by
  have run := en_cuenta (c := 0) (k := k) h h5 (by omega) fun e => by have := hu e; omega
  rwa [Nat.zero_add] at run

/-- Bits are sent one after the other until the end of the byte. -/
lemma en_bits {t n a k : ℕ} {d : Bool} (h : en w t = ⟨.e1, n, a, 0#8, d⟩)
    (free : ∀ j < k, ¬ (n + j = 8 ∨ n + j = 16 ∨ n + j = 24)) :
    ∃ d, en w (t + 256 * k) = ⟨.e1, n + k, a, 0#8, d⟩ := by
  induction k with
  | zero => exact ⟨d, h⟩
  | succ k ih =>
    obtain ⟨d', run⟩ := ih fun j lt => free j (Nat.lt_succ_of_lt lt)
    have last := en_baja (k := 255) run nofun (Nat.le_refl 255) nofun
    have next := (en_succ last).trans (clk_bit (free k (Nat.lt_succ_self k)))
    rw [show t + 256 * (k + 1) = t + 256 * k + 255 + 1 by omega]
    exact ⟨_, next⟩

/-- The first byte is the same in every run: its answer is taken in cycle 2431, with the line low. -/
lemma en_primera (w : ℕ → In) : en w 2431 = ⟨.e2, 8, 0, 0x7F#8, false⟩ := by
  have e0 : en w 127 = ⟨.e0, 0, 0, 0xFF#8, true⟩ :=
    en_cuenta (w := w) (t := 0) (c := 128) (k := 127) rfl nofun (by omega) nofun
  have inicio : en w 255 = ⟨.e1, 0, 0, 0xFF#8, false⟩ :=
    en_cuenta (c := 128) (k := 127) ((en_succ e0).trans clk_inicio) nofun (by omega) nofun
  obtain ⟨d, bits⟩ := en_bits (k := 7) ((en_succ inicio).trans (clk_bit (by decide))) fun j lt => by omega
  have e2 : en w 2304 = ⟨.e2, 8, 0, 0#8, d⟩ :=
    (en_succ (en_baja (k := 255) bits nofun (Nat.le_refl 255) nofun)).trans (clk_libera (.inl rfl))
  have answer : en w 2431 = ⟨.e2, 8, 0, 0x7F#8, d⟩ :=
    en_baja (k := 127) e2 nofun (by omega) fun _ => Nat.le_refl 127
  -- the last bit of the address of the codec
  have inv := inv_run w 2431
  rw [answer] at inv
  cases inv with
  | baja mic ha hn hc =>
    rw [answer]
    cases mic with
    | false => rfl
    | true => rfl

/-- The pulses are those of a session, at the position that the registers say. -/
lemma sesion_run (w : ℕ → In) (t : ℕ) : Sesion (log (pulso w) t) (en w t).caddr (pos (en w t)) := by
  induction t with
  | zero => exact .nil
  | succ t ih =>
    have step := avance (inv_run w t) (w t)
    rw [log_succ]
    change Sesion (_ ++ (pulsoDe (en w t) (w t)).toList) (clk (en w t) (w t)).caddr
      (pos (clk (en w t) (w t)))
    generalize pulsoDe (en w t) (w t) = p at step ⊢
    cases step with
    | nada a k =>
      rw [a, k]
      simpa using ih
    | palabra full a k =>
      rw [full] at ih
      rw [a, k]
      simpa using ih.palabra
    | pulso next lt a k =>
      rw [next, a, k]
      exact ih.pulso lt
    | nack a k =>
      rw [a, k]
      exact .nack _

/-- The states in which a bit has been loaded, or is going to be. -/
def envia (s : St) : Bool := s.ep = .e1 ∨ s.ep = .e2 ∨ s.ep = .e3

/-- An edge loads the bit of the next position, or keeps the bit on the line. -/
lemma carga_step {s : St} (h : Inv s) (i : In) :
    (ldbit s = true ∧ (clk s i).cbits = s.cbits + 1 ∧
      (clk s i).sdat = bit (clk s i).caddr i.micLin s.cbits) ∨
    (ldbit s = false ∧ (envia (clk s i) = true → (clk s i).cbits ≠ 0 →
      envia s = true ∧ (clk s i).cbits = s.cbits ∧ (clk s i).caddr = s.caddr ∧
        (clk s i).sdat = s.sdat)) := by
  have step := clk_step s i
  generalize clk s i = s' at step
  cases step with
  | cuenta h5 hu hd =>
    refine .inr ⟨?_, fun on _ => ⟨on, rfl, rfl, rfl⟩⟩
    obtain ⟨ep, n, a, c, d⟩ := s
    cases ep with
    | e1 | e3 => simp [ldbit, down, show c ≠ 0xFF#8 from hd nofun]
    | _ => rfl
  | inicio =>
    cases h with
    | espera ha hc => exact .inr ⟨rfl, fun _ ne => absurd rfl ne⟩
  | bit hn => exact .inl ⟨by simpa [ldbit, down, stop] using hn, rfl, rfl⟩
  | libera hn => exact .inr ⟨by simp [ldbit, down, stop, hn], fun _ _ => ⟨rfl, rfl, rfl, rfl⟩⟩
  | nack hs => exact .inr ⟨rfl, fun _ ne => absurd rfl ne⟩
  | ack hs => exact .inr ⟨rfl, fun _ _ => ⟨rfl, rfl, rfl, rfl⟩⟩
  | byte hn => exact .inl ⟨by simpa [ldbit, down, bit24] using hn, rfl, rfl⟩
  | cierre => exact .inr ⟨rfl, nofun⟩
  | palabra ha => exact .inr ⟨rfl, fun _ ne => absurd rfl ne⟩
  | final => exact .inr ⟨rfl, nofun⟩
  | fin => exact .inr ⟨rfl, nofun⟩

/-- The bit on the line is the last one loaded, with the value of `mic_lin` in that cycle. -/
lemma carga_run (t : ℕ) (on : envia (en w t) = true) (ne : (en w t).cbits ≠ 0) :
    ∃ l < t, carga w l = true ∧ (∀ x, l < x → x < t → carga w x = false) ∧
      (en w t).sdat = bit (en w t).caddr (w l).micLin ((en w t).cbits - 1) := by
  induction t with
  | zero => exact absurd rfl ne
  | succ t ih =>
    have step := carga_step (inv_run w t) (w t)
    change envia (clk (en w t) (w t)) = true at on
    change (clk (en w t) (w t)).cbits ≠ 0 at ne
    change ∃ l < t + 1, _ ∧ _ ∧ (clk (en w t) (w t)).sdat =
      bit (clk (en w t) (w t)).caddr _ ((clk (en w t) (w t)).cbits - 1)
    rcases step with ⟨ld, n, d⟩ | ⟨no, keep⟩
    · exact ⟨t, Nat.lt_succ_self t, ld, fun x lo hi => by omega, by rw [d, n, Nat.add_sub_cancel]⟩
    · obtain ⟨on', n, a, d⟩ := keep on ne
      obtain ⟨l, lt, ld, quiet, value⟩ := ih on' (n ▸ ne)
      refine ⟨l, Nat.lt_succ_of_lt lt, ld, fun x lo hi => ?_, by rw [d, n, a, value]⟩
      rcases Nat.lt_succ_iff_lt_or_eq.mp hi with lt' | rfl
      · exact quiet x lo lt'
      · exact no

/-- The pulse of a bit comes in the middle of the count in `e1`. -/
lemma pulso_bit {s : St} {i : In} {a n : ℕ} (inv : Inv s) (h : pulsoDe s i = some (.bit a n)) :
    ∃ mic, s = ⟨.e1, n + 1, a, 0x7F#8, bit a mic n⟩ := by
  rw [pulsoDe] at h
  split at h
  case isFalse => cases h
  case isTrue rise =>
    obtain ⟨low, high⟩ := rise
    cases inv with
    | inicio ha hc => exact absurd ((sclk_alta hc).symm.trans low) (by decide)
    | @bit m b c mic ha lt =>
      obtain ⟨rfl, rfl⟩ : b = a ∧ m = n := by simpa using h
      refine ⟨mic, ?_⟩
      by_contra ne
      have h7 : c ≠ 0x7F#8 := by
        rintro rfl
        exact ne rfl
      have hF : c ≠ 0xFF#8 := by
        rintro rfl
        exact absurd (sclk_FF.symm.trans low) (by decide)
      have sig : clk ⟨.e1, m + 1, b, c, bit b mic m⟩ i = ⟨.e1, m + 1, b, c + 1#8, bit b mic m⟩ :=
        clk_cuenta nofun nofun fun _ => hF
      rw [sig] at high
      exact absurd (low.symm.trans ((sclk_cuenta hF h7).symm.trans high)) (by decide)
    | _ => cases h

/-- With the pulse of a bit, the line has the value loaded. -/
lemma valor_run (t a n : ℕ) (h : pulso w t = some (.bit a n)) :
    (en w t).caddr = a ∧ sdat w t = sdat w (t + 1) ∧
      ∃ l < t, carga w l = true ∧ (∀ x, l < x → x ≤ t → carga w x = false) ∧
        sdat w (t + 1) = bit a (w l).micLin n := by
  obtain ⟨mic, eq⟩ := pulso_bit (inv_run w t) h
  have sig : en w (t + 1) = ⟨.e1, n + 1, a, 0x80#8, bit a mic n⟩ :=
    en_cuenta (c := 127) (k := 1) eq (by simp) (by omega) (by simp)
  obtain ⟨l, lt, ld, quiet, value⟩ := carga_run (w := w) t (by rw [eq]; rfl) (by rw [eq]; exact nofun)
  rw [eq] at value
  have now : sdat w t = bit a mic n := by
    change i2cSdat (en w t) (w t) = _
    rw [eq]
    rfl
  have after : sdat w (t + 1) = bit a mic n := by
    change i2cSdat (en w (t + 1)) (w (t + 1)) = _
    rw [sig]
    rfl
  refine ⟨by rw [eq], now.trans after.symm, l, lt, ld, fun x lo hi => ?_, after.trans value⟩
  rcases Nat.lt_or_eq_of_le hi with lt' | rfl
  · exact quiet x lo lt'
  · change ldbit (en w x) = false
    rw [eq]
    rfl

/-- The line is released for the answer to a byte. -/
lemma libera_run (l : ℕ) (no : libre w l = false) (on : libre w (l + 1) = true) :
    ∃ n a d, (n = 8 ∨ n = 16 ∨ n = 24) ∧ en w l = ⟨.e1, n, a, 0xFF#8, d⟩ ∧
      en w (l + 1) = ⟨.e2, n, a, 0#8, d⟩ := by
  have step := clk_step (en w l) (w l)
  change setbitz (en w l) = false at no
  change setbitz (clk (en w l) (w l)) = true at on
  change ∃ n a d, _ ∧ _ ∧ clk (en w l) (w l) = _
  generalize en w l = s at *
  generalize clk s (w l) = s' at *
  cases step with
  | cuenta h5 hu hd => exact absurd (no.symm.trans on) (by decide)
  | @libera n a d hn => exact ⟨n, a, d, hn, rfl, rfl⟩
  | nack hs => cases no
  | ack hs => cases no
  | _ => cases on

/-- The line is released for one pulse of the clock. -/
lemma ranura_run (l : ℕ) (no : libre w l = false) (on : libre w (l + 1) = true) : Ranura w l := by
  obtain ⟨n, a, d, hn, before, after⟩ := libera_run l no on
  -- the low phase
  have baja {k : ℕ} (hk : k < 128) : en w (l + 1 + k) = ⟨.e2, n, a, BitVec.ofNat 8 k, d⟩ :=
    en_baja after (by simp) (by omega) (by omega)
  have answer : en w (l + 129) = clk ⟨.e2, n, a, 0x7F#8, d⟩ (w (l + 128)) :=
    en_succ (baja (k := 127) (by omega))
  refine ⟨?_, fun k hk => ?_, fun nack => ?_, fun ack => ?_⟩
  · change i2cSclk (en w l) = true
    rw [before]
    exact sclk_FF
  · change setbitz (en w (l + 1 + k)) = true ∧ i2cSclk (en w (l + 1 + k)) = false
    rw [baja hk]
    exact ⟨rfl, sclk_baja (by rw [BitVec.toNat_ofNat]; omega)⟩
  · change setbitz (en w (l + 129)) = false ∧ i2cSclk (en w (l + 129)) = true
    rw [answer, clk_nack nack]
    exact ⟨rfl, sclk_80⟩
  · rw [clk_ack ack] at answer
    -- the high phase
    have alta {k : ℕ} (hk : k < 128) : en w (l + 129 + k) = ⟨.e3, n, a, BitVec.ofNat 8 (128 + k), d⟩ :=
      en_cuenta answer (by simp) (by omega) (by simp)
    refine ⟨fun k hk => ?_, ?_⟩
    · change setbitz (en w (l + 129 + k)) = true ∧ i2cSclk (en w (l + 129 + k)) = true
      rw [alta hk]
      exact ⟨rfl, sclk_alta (by rw [BitVec.toNat_ofNat]; omega)⟩
    · change setbitz (en w (l + 257)) = false ∧ i2cSclk (en w (l + 257)) = false
      have next : en w (l + 257) = clk ⟨.e3, n, a, 0xFF#8, d⟩ (w (l + 256)) :=
        en_succ (alta (k := 127) (by omega))
      rw [next]
      by_cases h24 : n = 24
      · rw [h24, clk_cierre]
        exact ⟨rfl, sclk_00⟩
      · rw [clk_byte h24]
        exact ⟨rfl, sclk_00⟩

/-- In `e5` nothing changes any more. -/
lemma fin_run (t : ℕ) (h : (en w t).ep = .e5) (u : ℕ) (le : t ≤ u) : en w u = en w t := by
  refine Machine.run_stays (P := fun s => s = en w t) le rfl fun x _ _ same => ?_
  rw [show auSetup.run reset w x = _ from same]
  generalize en w t = s at h
  obtain ⟨ep, n, a, c, d⟩ := s
  obtain rfl : ep = .e5 := h
  exact clk_fin

/-- Content and order of the configuration: whatever the slave answers, and whatever `mic_lin` does. -/
theorem auSetup_configura (w : ℕ → In) : Configura w where
  sesion t := ⟨_, sesion_run w t⟩
  valor := valor_run
  ranura := ⟨rfl, ranura_run⟩
  final t h := by
    refine ⟨?_, fun u le => ?_⟩
    · have sesion := sesion_run w t
      have inv := inv_run w t
      generalize en w t = s at h sesion inv
      cases inv with
      | fin =>
        obtain ⟨pre, nack, eq⟩ := sesion.palabra
        exact ⟨pre, nack, eq.trans (List.append_nil _)⟩
      | _ => cases h
    · have same := fin_run t h u le
      exact ⟨by rw [same, h], congrArg i2cSclk same⟩

end AuSetup
