import TecMidi.Audio.AuOut
import TecMidi.Audio.Series

/-!
# The frames of `au_out`

`au_out` has no count of the frames: it finds them by the level of `daclrc` each time it has sent a word.
`Antes` is what holds until `daclrc` first changes, when it may be sending a word at any point of a
channel; `Despues` is what holds from then on. In a channel that it has joined late it has counted at
least the bits that have gone by, so it is done when the channel ends, and waits for the next one; in a
frame that it has begun it has counted exactly these.

`auOut_carries` and `auOut_ready` follow for every frame.
-/

namespace AuOut
open Sync UCauOut Series

section Invariant
variable (w : ℕ → In)

/-- The state in a cycle of the run from reset. -/
abbrev en (t : ℕ) : St := auOut.run reset w t

/-- The bit clock. -/
abbrev bclk (t : ℕ) : Bool := (w t).bclk

/-- The channel clock. -/
abbrev daclrc (t : ℕ) : Bool := (w t).daclrc

/-- The sample that is present when a frame has entered `e1`. -/
abbrev muestra (a : ℕ) : BitVec 16 := (w (a + 2)).sample

/-- The bit clock is low in the next `n` cycles. -/
def Baja (t n : ℕ) : Prop := ∀ k < n, bclk w (t + 1 + k) = false

/-- After cycle `t`, before the first change of `daclrc`. -/
inductive Antes (t : ℕ) (s : St) : Prop where
  | espera : s.ep = .e0 → (∀ x ≤ t, daclrc w x = false) → Antes t s
  | palabra : s.ep ≠ .e0 → s.ep ≠ .e6 → (∀ x ≤ t, daclrc w x = true) → (s.ep = .e5 → bclk w t = false) →
      Antes t s

/-- `j` bits of a word have been sent when `n` bits of the channel have gone by; if a frame has begun,
these are the same, and it is its word. -/
structure Bits (t n j : ℕ) (c : BitVec 4) (x : BitVec 16) : Prop where
  cont : c.toNat + j = 15
  le : bits (bclk w) (daclrc w) t ≤ n
  exact : ∀ a, Last (daclrc w) a t → bits (bclk w) (daclrc w) t = n ∧ x = (muestra w a).rotateLeft j

/-- After cycle `t`, from the first change of `daclrc` on. -/
inductive Despues (t : ℕ) : St → Prop where
  | carga {c x} : daclrc w t = true → bclk w t = false → Baja w t 3 → bits (bclk w) (daclrc w) t = 0 →
      (∀ a, Last (daclrc w) a t → t = a + 1) → Despues t ⟨.e1, c, x⟩
  | cuenta {c x} : bclk w t = false → Baja w t 2 → bits (bclk w) (daclrc w) t = 0 →
      (∀ a, Last (daclrc w) a t → x = muestra w a) → Despues t ⟨.e2, c, x⟩
  | baja {j c x} : bclk w t = false → (bclk w (t + 1) = false ∨ en w t = ⟨.e3, c, x⟩) →
      Bits w t j j c x → Despues t ⟨.e3, c, x⟩
  | alta {j c x} : bclk w t = true → Bits w t (j + 1) j c x → Despues t ⟨.e4, c, x⟩
  | cae {j c x} : bclk w t = false → Baja w t 2 → Bits w t (j + 1) j c x → Despues t ⟨.e5, c, x⟩
  | derecha {c x} : daclrc w t = false → (∀ a, Last (daclrc w) a t → 16 ≤ bits (bclk w) (daclrc w) t) →
      Despues t ⟨.e6, c, x⟩
  | izquierda {c x} : daclrc w t = true →
      (∀ a, Last (daclrc w) a t → 16 ≤ bits (bclk w) (daclrc w) t ∧ x = muestra w a) →
      Despues t ⟨.e7, c, x⟩

end Invariant

variable {w : ℕ → In} {t : ℕ}

/-- Before the first cycle nothing has been sent. -/
lemma antes_init : Antes w 0 (en w 1) := by
  have next : en w 1 = ⟨if (w 0).daclrc = true then .e1 else .e0, 0xF#4, 0x0000#16⟩ := rfl
  rw [next]
  cases h : (w 0).daclrc with
  | false => exact .espera rfl fun x hx => by rw [Nat.le_zero.mp hx]; exact h
  | true => exact .palabra nofun nofun (fun x hx => by rw [Nat.le_zero.mp hx]; exact h) nofun

/-- What is low for some more cycles is so after the next one. -/
lemma Baja.tail {n : ℕ} (h : Baja w t (n + 1)) : Baja w (t + 1) n := fun k hk => by
  have low := h (k + 1) (Nat.succ_lt_succ hk)
  rwa [show t + 1 + (k + 1) = t + 1 + 1 + k by omega] at low

/-- What has been sent of a word does not change between the edges of the bit clock. -/
lemma Bits.keeps {n j : ℕ} {k : BitVec 4} {x : BitVec 16} (h : Bits w t n j k x)
    (same : ¬ Changes (daclrc w) t) (quiet : ¬ Rises (bclk w) t) : Bits w (t + 1) n j k x := by
  obtain ⟨cont, le, exact⟩ := h
  have eq := bits_keeps same quiet
  exact ⟨cont, eq ▸ le, fun a last => eq ▸ exact a (last.before fun h => same h.changes)⟩

/-- A rising edge of the bit clock sends the next bit. -/
lemma Bits.rises {n j : ℕ} {k : BitVec 4} {x : BitVec 16} (h : Bits w t n j k x)
    (same : ¬ Changes (daclrc w) t) (rise : Rises (bclk w) t) : Bits w (t + 1) (n + 1) j k x := by
  obtain ⟨cont, le, exact⟩ := h
  have eq := bits_rises same rise
  refine ⟨cont, eq ▸ Nat.succ_le_succ le, fun a last => ?_⟩
  obtain ⟨n', x'⟩ := exact a (last.before fun h => same h.changes)
  exact ⟨by rw [eq, n'], x'⟩

section Step
variable (c : Clocks (bclk w) (daclrc w))
include c

/-- The bit clock falls with the channel clock, and then it is low for a while. -/
lemma Baja.of_changes (h : Changes (daclrc w) t) : bclk w (t + 1) = false ∧ Baja w (t + 1) 3 := by
  refine ⟨(c.change t h).2, fun k hk => ?_⟩
  have low := c.low_of_changes h (k := k + 1) (by omega)
  rwa [show t + 1 + (k + 1) = t + 1 + 1 + k by omega] at low

/-- A frame begins with the state that takes the sample. -/
lemma Despues.begins (h : Begins (daclrc w) t) (k : BitVec 4) (x : BitVec 16) :
    Despues w (t + 1) ⟨.e1, k, x⟩ := by
  obtain ⟨low, baja⟩ := Baja.of_changes c h.changes
  exact .carga h.2 low baja (bits_changes h.changes) fun a last => by rw [last.eq_of_begins h]

omit c in
/-- Without a change of `daclrc` what held before the first one still does. -/
lemma Antes.next {s : St} (h : Antes w t s) (same : ¬ Changes (daclrc w) t) :
    Antes w (t + 1) (clk s (w (t + 1))) := by
  have keep : daclrc w t = daclrc w (t + 1) := not_not.mp same
  have all {v : Bool} (h : ∀ x ≤ t, daclrc w x = v) : ∀ x ≤ t + 1, daclrc w x = v := by
    intro x hx
    rcases Nat.lt_or_eq_of_le hx with lt | rfl
    · exact h x (Nat.le_of_lt_succ lt)
    · rw [← keep, h t (Nat.le_refl t)]
  obtain ⟨ep, c, x⟩ := s
  cases h with
  | espera h0 low =>
    obtain rfl : ep = .e0 := h0
    have now : (w (t + 1)).daclrc = false := all low _ (Nat.le_refl _)
    refine .espera ?_ (all low)
    rw [clk_e0, now]
    rfl
  | palabra h0 h6 high h5 =>
    have now : (w (t + 1)).daclrc = true := all high _ (Nat.le_refl _)
    cases ep with
    | e0 => exact absurd rfl h0
    | e6 => exact absurd rfl h6
    | e1 | e2 => exact .palabra nofun nofun (all high) nofun
    | e3 =>
      rw [clk_e3]
      split
      · exact .palabra nofun nofun (all high) nofun
      · exact .palabra nofun nofun (all high) nofun
    | e4 =>
      rw [clk_e4]
      split
      · exact .palabra nofun nofun (all high) fun _ => ‹_›
      · exact .palabra nofun nofun (all high) nofun
    | e5 =>
      rw [clk_e5, now]
      split
      · exact .palabra nofun nofun (all high) nofun
      · exact .palabra nofun nofun (all high) nofun
    | e7 =>
      rw [clk_e7, now]
      exact .palabra nofun nofun (all high) nofun

/-- The first change of `daclrc`. -/
lemma Antes.changes {s : St} (h : Antes w t s) (change : Changes (daclrc w) t) :
    Despues w (t + 1) (clk s (w (t + 1))) := by
  obtain ⟨ep, k, x⟩ := s
  obtain ⟨low, baja⟩ := Baja.of_changes c change
  cases h with
  | espera h0 all =>
    obtain rfl : ep = .e0 := h0
    have begins : Begins (daclrc w) t := by
      have before := all t (Nat.le_refl t)
      refine ⟨before, ?_⟩
      rw [Changes, before] at change
      simpa using change
    rw [clk_e0, if_pos begins.2]
    exact .begins c begins k x
  | palabra h0 h6 all h5 =>
    have before := all t (Nat.le_refl t)
    have now : daclrc w (t + 1) = false := by
      rw [Changes, before] at change
      simpa using change
    -- no frame has begun
    have none (a : ℕ) (last : Last (daclrc w) a (t + 1)) : False := by
      have high := all a (Nat.le_of_lt_succ last.2.1)
      rw [last.1.1] at high
      cases high
    have bits0 := bits_changes (b := bclk w) change
    have word {j n : ℕ} {k : BitVec 4} {x : BitVec 16} (hj : k.toNat + j = 15) : Bits w (t + 1) n j k x :=
      ⟨hj, by rw [bits0]; exact Nat.zero_le n, fun a last => (none a last).elim⟩
    have rest : k.toNat + (15 - k.toNat) = 15 := by
      have lt := k.isLt
      omega
    cases ep with
    | e0 => exact absurd rfl h0
    | e6 => exact absurd rfl h6
    | e5 =>
      have high := (c.change t change).1
      rw [h5 rfl] at high
      cases high
    | e1 =>
      rw [clk_e1]
      exact .cuenta low (fun k hk => baja k (by omega)) bits0 fun a last => (none a last).elim
    | e2 =>
      rw [clk_e2]
      exact .baja low (.inl (baja 0 (by decide))) (word (j := 0) rfl)
    | e3 =>
      rw [clk_e3, show (w (t + 1)).bclk = false from low]
      exact .baja low (.inl (baja 0 (by decide))) (word rest)
    | e4 =>
      rw [clk_e4, if_pos low]
      exact .cae low (fun k hk => baja k (by omega)) (word rest)
    | e7 =>
      rw [clk_e7, if_pos now]
      exact .cuenta low (fun k hk => baja k (by omega)) bits0 fun a last => (none a last).elim

/-- Every edge after the first change of `daclrc`. -/
lemma Despues.next {s : St} (h : Despues w t s) {a : ℕ} (lt : a < t) (first : Changes (daclrc w) a)
    (sig : en w (t + 1) = s) : Despues w (t + 1) (clk s (w (t + 1))) := by
  cases h with
  | @carga k x high low baja bits0 last =>
    have same := c.not_changes_of_low low
    have low' : bclk w (t + 1) = false := baja 0 (by decide)
    rw [clk_e1]
    refine .cuenta low' baja.tail ?_ fun a last' => ?_
    · rw [bits_keeps same (not_rises_of_low low'), bits0]
    · rw [last a (last'.before fun h => same h.changes)]
  | @cuenta k x low baja bits0 last =>
    have same := c.not_changes_of_low low
    have low' : bclk w (t + 1) = false := baja 0 (by decide)
    rw [clk_e2]
    refine .baja low' (.inl (baja.tail 0 (by decide))) (j := 0) (.keeps ?_ same (not_rises_of_low low'))
    exact ⟨rfl, Nat.le_of_eq bits0, fun a last' => ⟨bits0, by rw [last a last', rotateLeft_none]⟩⟩
  | @baja j k x low still word =>
    have same := c.not_changes_of_low low
    rw [clk_e3]
    cases now : (w (t + 1)).bclk with
    | false => exact .baja now (.inr sig) (word.keeps same (not_rises_of_low now))
    | true => exact .alta now (word.rises same ⟨low, now⟩)
  | @alta j k x high word =>
    -- the channel cannot end before its bits have been counted
    have same : ¬ Changes (daclrc w) t := fun change => by
      have long := c.channel a t lt first change
      have le := word.le
      have cont := word.cont
      omega
    have keeps := word.keeps same (not_rises_of_high high)
    rw [clk_e4]
    cases now : (w (t + 1)).bclk with
    | false => exact .cae now (fun k hk => c.low_of_falls high now (k := k + 1) (by omega) ▸ by congr 1; omega) keeps
    | true => exact .alta now keeps
  | @cae j k x low baja word =>
    have same := c.not_changes_of_low low
    have low' : bclk w (t + 1) = false := baja 0 (by decide)
    obtain ⟨cont, le, exact⟩ := word.keeps same (not_rises_of_low low')
    rw [clk_e5]
    by_cases zero : k = 0#4
    · obtain rfl : j = 15 := by
        rw [zero] at cont
        simpa using cont
      have full (a : ℕ) (last : Last (daclrc w) a (t + 1)) :
          16 ≤ bits (bclk w) (daclrc w) (t + 1) ∧ gira x = muestra w a := by
        obtain ⟨n, x'⟩ := exact a last
        exact ⟨Nat.le_of_eq n.symm, by rw [x', gira_rotateLeft, rotateLeft_all]⟩
      cases now : (w (t + 1)).daclrc with
      | false =>
        simp only [zero, decide_true]
        exact .derecha now fun a last => (full a last).1
      | true =>
        simp only [zero, decide_true]
        exact .izquierda now full
    · simp only [zero, decide_false, if_true]
      refine .baja low' (.inl (baja.tail 0 (by decide))) (j := j + 1) ⟨?_, le, fun a last => ?_⟩
      · have pos : k.toNat ≠ 0 := fun e => zero (BitVec.eq_of_toNat_eq e)
        have sub : (k - 1#4).toNat = k.toNat - 1 := by bv_omega
        omega
      · obtain ⟨n, x'⟩ := exact a last
        exact ⟨n, by rw [x', gira_rotateLeft]⟩
  | @derecha k x right full =>
    rw [clk_e6]
    cases now : (w (t + 1)).daclrc with
    | true => exact .begins c ⟨right, now⟩ k x
    | false =>
      have same : ¬ Changes (daclrc w) t := not_not.mpr (right.trans now.symm)
      refine .derecha now fun a last => ?_
      exact Nat.le_trans (full a (last.before fun h => same h.changes)) (bits_le same)
  | @izquierda k x left full =>
    rw [clk_e7]
    cases now : (w (t + 1)).daclrc with
    | true =>
      have same : ¬ Changes (daclrc w) t := not_not.mpr (left.trans now.symm)
      refine .izquierda now fun a last => ?_
      obtain ⟨n, x'⟩ := full a (last.before fun h => same h.changes)
      exact ⟨Nat.le_trans n (bits_le same), x'⟩
    | false =>
      have change : Changes (daclrc w) t := by
        rw [Changes, left, show daclrc w (t + 1) = false from now]
        decide
      obtain ⟨low, baja⟩ := Baja.of_changes c change
      refine .cuenta low (fun k hk => baja k (by omega)) (bits_changes change) fun a last => ?_
      exact (full a (last.before (not_begins_of_high left))).2

/-- In every cycle one of the two holds. -/
lemma antes_or_despues (t : ℕ) : Antes w t (en w (t + 1)) ∨
    ((∃ a < t, Changes (daclrc w) a) ∧ Despues w t (en w (t + 1))) := by
  induction t with
  | zero => exact .inl antes_init
  | succ t ih =>
    have sig : en w (t + 1 + 1) = clk (en w (t + 1)) (w (t + 1)) := rfl
    rw [sig]
    rcases ih with antes | ⟨⟨a, lt, first⟩, despues⟩
    · by_cases change : Changes (daclrc w) t
      · exact .inr ⟨⟨t, Nat.lt_succ_self t, change⟩, antes.changes c change⟩
      · exact .inl (antes.next change)
    · exact .inr ⟨⟨a, Nat.lt_succ_of_lt lt, first⟩, despues.next c lt first rfl⟩

/-- In a frame `daclrc` has changed. -/
lemma despues_of_last {a : ℕ} (last : Last (daclrc w) a t) : Despues w t (en w (t + 1)) := by
  obtain ⟨begins, lt, -⟩ := last
  rcases antes_or_despues c t with antes | ⟨-, despues⟩
  · cases antes with
    | espera _ low =>
      have high := begins.2
      rw [low _ lt] at high
      cases high
    | palabra _ _ high =>
      have low := begins.1
      rw [high _ (Nat.le_of_lt lt)] at low
      cases low
  · exact despues

/-- When a frame begins `au_out` is waiting for it. -/
lemma ready_of_begins {a : ℕ} (begins : Begins (daclrc w) a) : (en w (a + 2)).ep = .e1 := by
  have high : bclk w a = true := (c.change a begins.changes).1
  have right : (w a).daclrc = false := begins.1
  have left : (w (a + 1)).daclrc = true := begins.2
  change (clk (en w (a + 1)) (w (a + 1))).ep = .e1
  rcases antes_or_despues c a with antes | ⟨⟨a', lt, first⟩, despues⟩
  · cases antes with
    | espera h0 _ =>
      rw [clk, h0, left]
      rfl
    | palabra _ _ all =>
      rw [show (w a).daclrc = true from all a (Nat.le_refl a)] at right
      cases right
  · generalize en w (a + 1) = s at despues
    cases despues with
    | carga h => cases right.symm.trans h
    | cuenta low => cases low.symm.trans high
    | baja low => cases low.symm.trans high
    | alta _ word =>
      have long := c.channel a' a lt first begins.changes
      have le := word.le
      have cont := word.cont
      omega
    | cae low => cases low.symm.trans high
    | derecha _ _ =>
      rw [clk_e6, left]
      rfl
    | izquierda h _ => cases right.symm.trans h

/-- In a frame `ready` is pulsed once, when it has entered `e1`. -/
theorem auOut_ready {a : ℕ} (last : Last (daclrc w) a t) :
    (auOut.wave reset w (t + 1)).ready = true ↔ t = a + 1 := by
  change UCauOut.ready (en w (t + 1)).ep = true ↔ _
  constructor
  · intro ready
    have e1 : (en w (t + 1)).ep = .e1 := of_decide_eq_true ready
    have despues := despues_of_last c last
    generalize en w (t + 1) = s at despues e1
    cases despues with
    | carga _ _ _ _ at_a => exact at_a a last
    | _ => cases e1
  · rintro rfl
    exact decide_eq_true (ready_of_begins c last.1)

/-- In a frame the line carries the sample that is present when it has entered `e1`, in both channels. -/
theorem auOut_carries (a : ℕ) : Carries (bclk w) (daclrc w)
    (fun t => (auOut.wave reset w t).dacDat) (muestra w a) a := by
  intro t last rise short
  obtain ⟨low, high⟩ := rise
  have despues := despues_of_last c last
  generalize eq : en w (t + 1) = s at despues
  cases despues with
  | carga _ _ baja => cases high.symm.trans (baja 0 (by decide))
  | cuenta _ baja => cases high.symm.trans (baja 0 (by decide))
  | @baja j k x _ still word =>
    have before : en w t = ⟨.e3, k, x⟩ := still.resolve_left (by rw [high]; decide)
    obtain ⟨n, x'⟩ := word.exact a last
    have line : x.getLsbD 15 = (muestra w a).getMsbD (bits (bclk w) (daclrc w) t) := by
      rw [x', n, dacDat_rotateLeft _ (by rw [← n]; exact short)]
    constructor
    · change (en w t).sampleAux.getLsbD 15 = _
      rw [before]
      exact line
    · change (en w (t + 1)).sampleAux.getLsbD 15 = _
      rw [eq]
      exact line
  | alta h => cases low.symm.trans h
  | cae _ baja => cases high.symm.trans (baja 0 (by decide))
  | derecha _ full => exact absurd (full a last) (Nat.not_le.mpr short)
  | izquierda _ full => exact absurd (full a last).1 (Nat.not_le.mpr short)

end Step

end AuOut
