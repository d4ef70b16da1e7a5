import TecMidi.Rx.Reception

/-!
# `modulo1` recovers from any line

Whatever the line has carried before, a high line leads back to `e0`: `plazo` is the number of cycles that
this takes at most, and every edge of a high line makes it smaller (`Inv.clk`). It relies on the bounds
of the two counters (`Inv`), which wrap below zero when they expire but are never tested then.

`Recibe` says what happens in which cycle of a frame, and `modulo1_estabiliza` what that makes of a line.
-/

namespace Modulo1
open Sync UCmodulo1

/-- The counters are in range in the states that test them. -/
structure Inv (s : St) : Prop where
  half : s.ep = .e2 → s.valuePd.toNat ≤ 799
  period : s.ep = .e4 → s.valuePd.toNat ≤ 1599
  bits : s.ep = .e4 ∨ s.ep = .e5 ∨ s.ep = .e6 → s.valueBt.toNat ≤ 8

/-- On a high line the machine is in `e0` after at most that many cycles. -/
def plazo (s : St) : ℕ :=
  match s.ep with
  | .e0 => 0
  | .e1 => 801
  | .e2 => s.valuePd.toNat + 1
  | .e3 => 14420
  | .e4 => s.valuePd.toNat + 4 + 1602 * s.valueBt.toNat
  | .e5 => 3 + 1602 * s.valueBt.toNat
  | .e6 => 1604 + 1602 * s.valueBt.toNat
  | .e7 => 2
  | .e8 => 1

/-- With the counters in range the way to `e0` is shorter than ten bits. -/
lemma Inv.plazo_le {s : St} (inv : Inv s) : plazo s ≤ 14420 := by
  obtain ⟨ep, c, k, v⟩ := s
  obtain ⟨half, period, bits⟩ := inv
  cases ep with
  | e0 => simp [plazo]
  | e1 => simp [plazo]
  | e2 =>
    have le := half rfl
    simp only [plazo] at le ⊢
    omega
  | e3 => simp [plazo]
  | e4 =>
    have le := period rfl
    have le' := bits (.inl rfl)
    simp only [plazo] at le le' ⊢
    omega
  | e5 =>
    have le := bits (.inr (.inl rfl))
    simp only [plazo] at le ⊢
    omega
  | e6 =>
    have le := bits (.inr (.inr rfl))
    simp only [plazo] at le ⊢
    omega
  | e7 => simp [plazo]
  | e8 => simp [plazo]

/-- Only four states test a counter. -/
lemma Inv.of_untested {s : St} (h : s.ep ≠ .e2 ∧ s.ep ≠ .e4 ∧ s.ep ≠ .e5 ∧ s.ep ≠ .e6) : Inv s := by
  obtain ⟨two, four, five, six⟩ := h
  refine ⟨fun ep => absurd ep two, fun ep => absurd ep four, ?_⟩
  rintro (ep | ep | ep)
  · exact absurd ep four
  · exact absurd ep five
  · exact absurd ep six

/-- A value of the period counter and its number. -/
lemma eq_ofNat (v : BitVec 12) : ∃ n < 4096, v = BitVec.ofNat 12 n ∧ v.toNat = n :=
  ⟨v.toNat, v.isLt, by simp, rfl⟩

/-- An edge keeps the counters in range, and with a high line it comes nearer to `e0`. -/
lemma Inv.clk {s : St} (inv : Inv s) (x : Bool) :
    Inv (Modulo1.clk s x) ∧ (x = true → s.ep ≠ .e0 → plazo (Modulo1.clk s x) < plazo s) := by
  obtain ⟨ep, c, k, v⟩ := s
  obtain ⟨half, period, bits⟩ := inv
  cases ep with
  | e0 =>
    refine ⟨?_, fun _ ne => absurd rfl ne⟩
    rw [clk_e0]
    apply Inv.of_untested
    cases x <;> simp
  | e1 =>
    rw [clk_e1]
    refine ⟨⟨fun _ => by simp, nofun, by simp⟩, fun _ _ => ?_⟩
    simp [plazo]
  | e2 =>
    obtain ⟨n, lt, rfl, nat⟩ := eq_ofNat v
    have le := half rfl
    simp only [nat] at le
    cases n with
    | zero =>
      rw [clk_e2_fin]
      refine ⟨?_, ?_⟩
      · apply Inv.of_untested
        cases x <;> simp
      · rintro rfl _
        simp [plazo]
    | succ n =>
      have nat' : (BitVec.ofNat 12 n).toNat = n := by
        rw [BitVec.toNat_ofNat, Nat.mod_eq_of_lt (by omega)]
      rw [clk_e2_wait c k x lt]
      refine ⟨⟨fun _ => ?_, nofun, by simp⟩, fun _ _ => ?_⟩
      · simp only [nat']
        omega
      · simp only [plazo, nat, nat']
        omega
  | e3 =>
    rw [clk_e3]
    refine ⟨⟨nofun, fun _ => by simp, fun _ => by simp⟩, fun _ _ => ?_⟩
    simp [plazo]
  | e4 =>
    obtain ⟨n, lt, rfl, nat⟩ := eq_ofNat v
    have le := period rfl
    have le' := bits (.inl rfl)
    simp only [nat] at le
    cases n with
    | zero =>
      rw [clk_e4_fin]
      refine ⟨⟨nofun, nofun, fun _ => le'⟩, fun _ _ => ?_⟩
      simp only [plazo]
      omega
    | succ n =>
      have nat' : (BitVec.ofNat 12 n).toNat = n := by
        rw [BitVec.toNat_ofNat, Nat.mod_eq_of_lt (by omega)]
      rw [clk_e4_wait c k x lt]
      refine ⟨⟨nofun, fun _ => ?_, fun _ => le'⟩, fun _ _ => ?_⟩
      · simp only [nat']
        omega
      · simp only [plazo, nat, nat']
        omega
  | e5 =>
    have le := bits (.inr (.inl rfl))
    by_cases zero : k = 0x0#4
    · subst zero
      rw [clk_e5_last]
      exact ⟨Inv.of_untested (by simp), fun _ _ => by simp [plazo]⟩
    · have not_wrapped : k ≠ 0xF#4 := by
        rintro rfl
        simp at le
      have dec : (k - 1).toNat + 1 = k.toNat := by bv_omega
      rw [clk_e5_more c k v x ⟨zero, not_wrapped⟩]
      refine ⟨⟨nofun, nofun, fun _ => ?_⟩, fun _ _ => ?_⟩
      · simp only at le ⊢
        omega
      · simp only [plazo]
        omega
  | e6 =>
    have le := bits (.inr (.inr rfl))
    rw [clk_e6]
    refine ⟨⟨nofun, fun _ => by simp, fun _ => le⟩, fun _ _ => ?_⟩
    simp [plazo]
  | e7 =>
    rw [clk_e7]
    refine ⟨?_, fun _ _ => ?_⟩
    · apply Inv.of_untested
      split <;> simp
    · split <;> simp [plazo]
  | e8 =>
    rw [clk_e8]
    exact ⟨Inv.of_untested (by simp), fun _ _ => by simp [plazo]⟩

/-- The counters are in range in every run. -/
lemma inv_run (w : ℕ → Bool) (t : ℕ) : Inv (modulo1.run reset w t) :=
  Machine.run_invariant (P := Inv) (.of_untested (by simp [reset])) (fun _ x inv => (inv.clk x).1) t

/-- Once `plazo` has passed with the line high, the machine is in `e0`. -/
lemma run_plazo {s : St} (inv : Inv s) {w : ℕ → Bool} {n : ℕ} (high : ∀ t < n, w t = true) :
    Inv (modulo1.run s w n) ∧
      ((modulo1.run s w n).ep = .e0 ∨ plazo (modulo1.run s w n) + n ≤ plazo s) := by
  induction n with
  | zero => exact ⟨inv, .inr (Nat.le_refl _)⟩
  | succ n ih =>
    obtain ⟨inv', near⟩ := ih fun t ht => high t (Nat.lt_succ_of_lt ht)
    have up := high n (Nat.lt_succ_self n)
    obtain ⟨inv'', less⟩ := inv'.clk (w n)
    refine ⟨inv'', ?_⟩
    by_cases idle : (modulo1.run s w n).ep = .e0
    · left
      rw [Machine.run_succ, up]
      exact (high_idle _ idle).1
    · right
      have lt : plazo (modulo1.run s w (n + 1)) < plazo (modulo1.run s w n) := less up idle
      rcases near with ep | le
      · exact absurd ep idle
      · omega

/-! ## Frames, cycle by cycle -/

variable {P : ℕ} (lo : 1530 ≤ P) (hi : P ≤ 1690)

include lo hi in
/-- A frame leads from `e0` to `e0`, and so does a high line. -/
lemma receives : Segments.Receives (fun _ : Midi.Byte => 10 * P) (Serial.frame P) modulo1
    (fun s => s.ep = .e0) where
  high s idle := (high_idle s idle).1
  segment b s w idle hw := (modulo1_frame (by omega) (by omega) s w b idle hw).1

/-- On a high line the byte shown does not change in `e0`. -/
lemma high_code (s : St) (idle : s.ep = .e0) : (modulo1.next s true).code = s.code := by
  obtain ⟨ep, c, k, v⟩ := s
  obtain rfl : ep = .e0 := idle
  rfl

/-- The confirmation of the start bit, the pulse, and the byte before and after them. -/
structure Recibe (s : St) (w : ℕ → Bool) (P : ℕ) (b : Midi.Byte) : Prop where
  start : (modulo1.run s w 802).ep = .e3
  pulse : ∀ t < 10 * P, (modulo1.wave s w t).byte? = if t = 15221 then some b else none
  before : ∀ t ≤ 802, (modulo1.run s w t).code = s.code
  after : ∀ t, 15221 ≤ t → t ≤ 10 * P → (modulo1.run s w t).code = b

include lo hi in
/-- A frame that finds the machine in `e0` is received. -/
lemma recibe (s : St) (w : ℕ → Bool) (b : Midi.Byte) (idle : s.ep = .e0)
    (hw : ∀ t < 10 * P, w t = Serial.frame P b t) : Recibe s w P b := by
  obtain ⟨data, stop⟩ := frame_sampled (P := P) (by omega) (by omega) b
  have start (t : ℕ) (ht : t < P) : w t = false :=
    (hw t (by omega)).trans (Serial.frame_start ht)
  have agrees (i : ℕ) (h : i ≤ 8) : w (sampleTime i) = Serial.frame P b (sampleTime i) :=
    hw _ (by simp only [sampleTime]; omega)
  obtain ⟨confirmed, before⟩ := run_half idle (start 0 (by omega)) (start 801 (by omega))
  obtain ⟨silent, pulse, code, back⟩ :=
    run_frame idle (start 0 (by omega)) (start 801 (by omega)) ((agrees 8 (Nat.le_refl 8)).trans stop)
      fun i h => (agrees i (by omega)).trans (data i h)
  have code' : (modulo1.run s w 15222).code = b := by
    rw [← code, Machine.run_succ]
    generalize modulo1.run s w 15221 = r at pulse ⊢
    obtain ⟨ep, c, k, v⟩ := r
    obtain rfl : ep = .e8 := pulse
    rfl
  -- from the pulse on the line is high
  have up (n : ℕ) (le : 15222 + n ≤ 10 * P) : ∀ t < n, shift 15222 w t = true := fun t ht =>
    (hw (15222 + t) (by omega)).trans (Serial.frame_stop (by omega) (by omega))
  refine ⟨by rw [confirmed], ?_, ?_, ?_⟩
  · intro t ht
    rcases Nat.lt_trichotomy t 15221 with lt | rfl | gt
    · rw [if_neg (by omega)]
      exact byte?_wave (silent t lt)
    · rw [if_pos rfl, byte?_wave_e8 pulse, code]
    · obtain ⟨n, rfl⟩ := Nat.exists_eq_add_of_le (show 15222 ≤ t from gt)
      have idle' := (receives lo hi).run_high back (up n (by omega))
      rw [if_neg (by omega)]
      apply byte?_wave
      rw [Machine.run_add, idle']
      simp
  · intro t le
    rw [St.code, (before t le).2]
    rfl
  · intro t ge le
    rcases Nat.eq_or_lt_of_le ge with rfl | gt
    · exact code
    · obtain ⟨n, rfl⟩ := Nat.exists_eq_add_of_le (show 15222 ≤ t from gt)
      rw [Machine.run_add, ← code']
      exact (receives lo hi).high_holds St.code high_code back (up n le)

section Line

variable {s : St} (idle : s.ep = .e0) (fs : List (ℕ × Midi.Byte))

include lo hi idle

/-- Every frame delivers its byte in cycle 15221 of its own, and nothing else is delivered. -/
lemma line_pulses (t : ℕ) (b : Midi.Byte) :
    (modulo1.wave s (Serial.line P fs) t).byte? = some b ↔
      ∃ f ∈ Serial.starts P fs, f.2 = b ∧ t = f.1 + 15221 := by
  rw [Serial.line_segments, (receives lo hi).pulses
    (fun b t => if t = 15221 then some b else none) (fun s idle => (high_idle s idle).2)
    (fun b s w idle hw => (recibe lo hi s w b idle hw).pulse) idle fs t b]
  refine exists_congr fun f => and_congr_right fun _ => ?_
  constructor
  · rintro ⟨start, -, ev⟩
    rw [Option.ite_none_right_eq_some] at ev
    refine ⟨Option.some.inj ev.2, ?_⟩
    omega
  · rintro ⟨rfl, rfl⟩
    refine ⟨Nat.le_add_right _ _, by omega, ?_⟩
    rw [Nat.add_sub_cancel_left, if_pos rfl]

/-- Every start bit of a line is confirmed in cycle 802 of its frame. -/
lemma line_confirmed {f : ℕ × Midi.Byte} (mem : f ∈ Serial.starts P fs) :
    (modulo1.run s (Serial.line P fs) (f.1 + 802)).ep = .e3 := by
  rw [Serial.line_segments, Machine.run_add]
  obtain ⟨idle', agree⟩ := (receives lo hi).enter idle mem
  exact (recibe lo hi _ _ f.2 idle' agree).start

/-- From its pulse until the next start bit is confirmed a byte is shown. -/
lemma line_code {f : ℕ × Midi.Byte} (mem : f ∈ Serial.starts P fs) {u : ℕ} (from_ : f.1 + 15221 ≤ u)
    (until_ : ∀ g ∈ Serial.starts P fs, f.1 < g.1 → u ≤ g.1 + 802) :
    (modulo1.run s (Serial.line P fs) u).code = f.2 := by
  rw [Serial.line_segments]
  exact (receives lo hi).holds St.code (v := id) (D := 15221) (E := 802) high_code
    (fun b s w idle hw t _ le => (recibe lo hi s w b idle hw).before t le)
    (fun b s w idle hw => (recibe lo hi s w b idle hw).after)
    (fun _ => by omega) (fun _ => by omega) idle mem from_ until_

end Line

/-- From any state reached on any line, 15300 high cycles lead to `e0`. From there every line of frames of
1530 to 1690 cycles per bit is received: one pulse a frame, in order, with its byte, which is shown until
the start bit of the next frame is confirmed. -/
theorem modulo1_estabiliza (w : ℕ → Bool) (t₀ : ℕ) (high : ∀ t < 15300, w (t₀ + t) = true) :
    (modulo1.run reset w (t₀ + 15300)).ep = .e0 ∧
      ∀ P, 1530 ≤ P → P ≤ 1690 → ∀ fs : List (ℕ × Midi.Byte),
        (∀ t b, (modulo1.wave (modulo1.run reset w (t₀ + 15300)) (Serial.line P fs) t).byte? = some b ↔
          ∃ f ∈ Serial.starts P fs, f.2 = b ∧ t = f.1 + 15221) ∧
        (∀ f ∈ Serial.starts P fs,
          (modulo1.run (modulo1.run reset w (t₀ + 15300)) (Serial.line P fs) (f.1 + 802)).ep = .e3 ∧
          ∀ u, f.1 + 15221 ≤ u → (∀ g ∈ Serial.starts P fs, f.1 < g.1 → u ≤ g.1 + 802) →
            (modulo1.run (modulo1.run reset w (t₀ + 15300)) (Serial.line P fs) u).code = f.2) ∧
        (Serial.starts P fs).map Prod.snd = fs.map Prod.snd ∧
        (Serial.starts P fs).Pairwise fun f g => f.1 + 10 * P ≤ g.1 := by
  have idle : (modulo1.run reset w (t₀ + 15300)).ep = .e0 := by
    have inv := inv_run w t₀
    rw [Machine.run_add]
    rcases (run_plazo inv (w := shift t₀ w) (n := 15300) high).2 with ep | le
    · exact ep
    · have short := inv.plazo_le
      omega
  refine ⟨idle, ?_⟩
  intro P lo hi fs
  refine ⟨line_pulses lo hi idle fs, ?_, Segments.starts_snd _ fs,
    Segments.starts_ordered (fun _ => 10 * P) fs⟩
  intro f mem
  exact ⟨line_confirmed lo hi idle fs mem, fun u => line_code lo hi idle fs mem⟩

/-- The frames of two bytes. -/
def dosTramas : List (ℕ × Midi.Byte) := [(0, 0x90#8), (9, 60#8)]

/-- A frame breaks off in its second data bit, and the line stays low; then it is high, and then come the two
frames. -/
def roto (t : ℕ) : Bool :=
  if t < 4000 then Serial.frame 1600 0x55#8 t
  else if t < 7000 then false
  else if t < 22300 then true
  else Serial.line 1600 dosTramas (t - 22300)

/-- After the broken frame both bytes are pulsed, and nothing else, and the first one is shown until the start
bit of the second one is confirmed. -/
theorem modulo1_estabiliza_roto : (modulo1.run reset roto 22300).ep = .e0 ∧
    (∀ t b, (modulo1.wave reset roto (22300 + t)).byte? = some b ↔
      ∃ f ∈ [(0, 0x90#8), (16009, 60#8)], f.2 = b ∧ t = f.1 + 15221) ∧
    (modulo1.run reset roto (22300 + 16811)).code = 0x90#8 := by
  have high : ∀ t < 15300, roto (7000 + t) = true := fun t lt => by
    rw [roto, if_neg (by omega), if_neg (by omega), if_pos (by omega)]
  have rest : shift 22300 roto = Serial.line 1600 dosTramas := by
    funext t
    rw [shift_apply, roto, if_neg (by omega), if_neg (by omega), if_neg (by omega), Nat.add_sub_cancel_left]
  obtain ⟨idle, frames⟩ := modulo1_estabiliza roto 7000 high
  obtain ⟨pulses, shown, -, -⟩ := frames 1600 (by decide) (by decide) dosTramas
  rw [← rest] at pulses shown
  refine ⟨idle, fun t b => ?_, ?_⟩
  · rw [Machine.wave_add]
    exact pulses t b
  · rw [Machine.run_add]
    exact (shown (0, 0x90#8) (by decide)).2 16811 (by decide) (by decide)

end Modulo1
