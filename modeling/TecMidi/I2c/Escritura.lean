import Mathlib.Data.List.Basic
import TecMidi.I2c.Termina
import TecMidi.Sync.Bus

/-!
# What is read from the bus of `au_setup`

With a slave that acknowledges every byte, the wires are read with the reader of `Sync.Bus`. `acta` is what
has happened on them when the controller is in a state, and `acta_clk` that every edge adds to it what
happens in its cycle. So the reader gets the eight words of the configuration, byte by byte and in order,
and no stop after the last one (`auSetup_escribe`). Only one bit of them depends on `mic_lin`, and only in
the cycle in which it is loaded.
-/

namespace AuSetup
open Sync Sync.Bus

/-- What a pulse of the clock is on the bus. -/
def valor (mic : Bool) : Pulso → Bool
  | .bit a n => bit a mic n
  | .ranura nack => nack
  | .cierre => false

/-- The bytes of the word for an address. -/
def octetos (mic : Bool) (a : ℕ) : List (BitVec 8) :=
  (List.range 3).map fun j => (dato a mic).extractLsb' (16 - 8 * j) 8

/-- What has happened on the bus. -/
def acta (mic : Bool) (s : St) : List Suceso :=
  (List.range s.caddr).flatMap (fun a => trama (octetos mic a)) ++
    if s.ep = .e0 then []
    else .start :: ((palabra s.caddr).take (pos s)).map fun p => .bit (valor mic p)

/-- The wires, if the slave acknowledges. -/
def lineas (s : St) : Lineas := ⟨i2cSclk s, if setbitz s = true then false else s.sdat⟩

/-- The bits of the bytes of a word are those of the word, in order. -/
lemma getMsbD_octeto (a : ℕ) (mic : Bool) {i j : ℕ} (hj : j < 3) (hi : i < 8) :
    ((dato a mic).extractLsb' (16 - 8 * j) 8).getMsbD i = bit a mic (8 * j + i) := by
  have inside : 16 - 8 * j + 8 - i ≤ 24 := by omega
  have place : 24 - (16 - 8 * j + 8 - i) = 8 * j + i := by omega
  rw [BitVec.getMsbD_extractLsb', decide_eq_true hi, decide_eq_true inside, place, Bool.true_and,
    Bool.true_and, bit]

/-- The pulses of a word, between its start and its stop, are the write of its bytes. -/
lemma trama_palabra (mic : Bool) (a : ℕ) :
    trama (octetos mic a) = .start :: (palabra a).map (fun p => .bit (valor mic p)) ++ [.stop] := by
  have byte (j : ℕ) (hj : j < 3) : octeto ((dato a mic).extractLsb' (16 - 8 * j) 8) =
      ((List.range 8).map (fun i => Pulso.bit a (8 * j + i)) ++ [Pulso.ranura false]).map
        fun p => Suceso.bit (valor mic p) := by
    rw [octeto, List.map_append, List.map_map]
    refine congrArg (· ++ [Suceso.bit false]) (List.map_congr_left fun i hi => ?_)
    exact congrArg Suceso.bit (getMsbD_octeto a mic hj (List.mem_range.mp hi))
  have bytes : (octetos mic a).flatMap octeto = ((List.range 3).flatMap fun j =>
      (List.range 8).map (fun i => Pulso.bit a (8 * j + i)) ++ [Pulso.ranura false]).map
        fun p => Suceso.bit (valor mic p) := by
    rw [octetos, List.flatMap_map, List.map_flatMap]
    exact List.flatMap_congr fun j hj => byte j (List.mem_range.mp hj)
  rw [trama, bytes, palabra, List.map_append]
  simp [valor]

/-! ## What an edge adds -/

section Acta
variable {mic : Bool} {s s' : St}

/-- The clock falls in the course of a word. -/
lemma acta_cae (high : i2cSclk s = true) (low : i2cSclk s' = false) (h0 : s.ep ≠ .e0) (h0' : s'.ep ≠ .e0)
    (addr : s'.caddr = s.caddr) (same : pos s' = pos s) :
    acta mic s' = acta mic s ++ (suceso (lineas s) (lineas s')).toList := by
  rw [lineas, lineas, high, low, suceso_cae, acta, acta, if_neg h0, if_neg h0', addr, same]
  exact (List.append_nil _).symm

/-- It rises with a pulse. -/
lemma acta_sube {p : Pulso} (low : i2cSclk s = false) (high : i2cSclk s' = true) (h0 : s.ep ≠ .e0)
    (h0' : s'.ep ≠ .e0) (step : Avance s s' (some p)) (ack : p ≠ .ranura true)
    (line : (lineas s').sda = valor mic p) :
    acta mic s' = acta mic s ++ (suceso (lineas s) (lineas s')).toList := by
  have up : suceso (lineas s) (lineas s') = some (.bit (lineas s').sda) := by
    rw [lineas, lineas, low, high, suceso_sube]
  rw [up, line]
  cases step with
  | pulso next lt addr more =>
    rw [acta, acta, if_neg h0, if_neg h0', addr, more, take_palabra _ lt, List.map_append, next]
    simp
  | nack addr zero => exact absurd rfl ack

/-- When the line falls in `e0` a start is added to what has happened. -/
lemma acta_start (high : i2cSclk s = true) (high' : i2cSclk s' = true) (h0 : s.ep = .e0) (h1 : s'.ep = .e1)
    (one : s.sdat = true) (low : s'.sdat = false) (addr : s'.caddr = s.caddr) (zero : pos s' = 0) :
    acta mic s' = acta mic s ++ (suceso (lineas s) (lineas s')).toList := by
  have start : suceso (lineas s) (lineas s') = some .start := by
    simp [suceso, lineas, setbitz, h0, h1, high, high', one, low]
  have h0' : s'.ep ≠ .e0 := fun e => by cases h1.symm.trans e
  rw [start, acta, acta, if_pos h0, if_neg h0', addr, zero, List.append_nil]
  rfl

/-- When the line rises in `e4` a stop is added, and the word is complete. -/
lemma acta_stop (high : i2cSclk s = true) (high' : i2cSclk s' = true) (h4 : s.ep = .e4) (h0' : s'.ep = .e0)
    (low : s.sdat = false) (one : s'.sdat = true) (addr : s'.caddr = s.caddr + 1) (full : pos s = 28) :
    acta mic s' = acta mic s ++ (suceso (lineas s) (lineas s')).toList := by
  have stop : suceso (lineas s) (lineas s') = some .stop := by
    simp [suceso, lineas, setbitz, h4, h0', high, high', one, low]
  have h0 : s.ep ≠ .e0 := fun e => by cases h4.symm.trans e
  have all : (palabra s.caddr).take 28 = palabra s.caddr := List.take_of_length_le (Nat.le_refl 28)
  rw [stop, acta, acta, if_neg h0, if_pos h0', addr, full, all, List.range_succ, List.flatMap_append,
    List.flatMap_singleton, trama_palabra, List.append_nil, List.append_assoc]
  rfl

/-- Without a pulse and in the same word, the position is the same. -/
lemma avance_nada {i : In} (h : Inv s) (quiet : pulsoDe s i = none) (addr : (clk s i).caddr = s.caddr) :
    pos (clk s i) = pos s := by
  have step := avance h i
  rw [quiet] at step
  cases step with
  | nada _ same => exact same
  | palabra _ next _ => exact absurd (addr.symm.trans next) (Nat.ne_of_lt (Nat.lt_succ_self _))

end Acta

/-- The bits that the slave acknowledges: the line is high before a start, and the last bit loaded is on it. -/
structure Fiel (mic : Bool) (s : St) : Prop where
  alta : s.ep = .e0 → s.sdat = true
  bit : s.ep = .e1 → s.cbits ≠ 0 → s.sdat = bit s.caddr mic (s.cbits - 1)

/-- Only one bit depends on `mic_lin`. -/
lemma bit_micLin {a n : ℕ} (m m' : Bool) (h : ¬ (a = 3 ∧ n = 21)) : bit a m n = bit a m' n := by
  match a with
  | 0 | 1 | 2 | 4 | 5 | 6 | _ + 7 => rfl
  | 3 =>
    have ne : n ≠ 21 := fun e => h ⟨rfl, e⟩
    by_cases lt : n < 24
    · have key : ∀ n < 24, n ≠ 21 → ∀ m m', AuSetup.bit 3 m n = AuSetup.bit 3 m' n := by decide
      exact key n lt ne m m'
    · rw [AuSetup.bit, AuSetup.bit, BitVec.getMsbD_of_ge _ _ (Nat.le_of_not_lt lt),
        BitVec.getMsbD_of_ge _ _ (Nat.le_of_not_lt lt)]

/-- Every edge keeps what is on the line, if the slave acknowledges and the switch is read once. -/
lemma Fiel.clk {mic : Bool} {s : St} {i : In} (h : Fiel mic s) (inv : Inv s)
    (ack : s.ep = .e2 → i.esclavo = false)
    (carga : ldbit s = true → s.caddr = 3 → s.cbits = 21 → i.micLin = mic) : Fiel mic (clk s i) := by
  have step := clk_step s i
  generalize AuSetup.clk s i = s' at step
  -- the bit that is loaded has the value of `mic_lin` that counts
  have load {n a : ℕ} (ld : ldbit s = true) (ha : s.caddr = a) (hn : s.cbits = n) :
      AuSetup.bit a i.micLin n = AuSetup.bit a mic n := by
    by_cases last : a = 3 ∧ n = 21
    · rw [carga ld (ha.trans last.1) (hn.trans last.2)]
    · exact bit_micLin _ _ last
  cases step with
  | cuenta h5 hu hd => exact ⟨h.alta, h.bit⟩
  | inicio =>
    cases inv with
    | espera ha hc => exact ⟨nofun, fun _ ne => absurd rfl ne⟩
  | @bit n a d hn => exact ⟨nofun, fun _ _ => load (by simpa [ldbit, down, stop] using hn) rfl rfl⟩
  | @byte n a d hn => exact ⟨nofun, fun _ _ => load (by simpa [ldbit, down, bit24] using hn) rfl rfl⟩
  | nack hs => exact absurd (ack rfl) (by rw [hs]; decide)
  | palabra ha => exact ⟨fun _ => rfl, nofun⟩
  | libera | ack | cierre | final | fin => exact ⟨nofun, nofun⟩

/-- The counter adds the pulse of the middle of its count. -/
lemma acta_cuenta {mic : Bool} {s : St} {i : In} (fiel : Fiel mic s) (h : Inv s) (h5 : s.ep ≠ .e5)
    (hu : s.ep = .e2 → s.ctmp ≠ 0x7F#8) (hd : s.ep ≠ .e2 → s.ctmp ≠ 0xFF#8) :
    acta mic (clk s i) = acta mic s ++ (suceso (lineas s) (lineas (clk s i))).toList := by
  have av := avance h i
  have eq := clk_cuenta (i := i) h5 hu hd
  by_cases hm : s.ctmp = 0x7F#8
  · obtain ⟨ep, n, a, c, d⟩ := s
    obtain rfl : c = 0x7F#8 := hm
    rw [pulsoDe, eq, if_pos ⟨sclk_7F, sclk_80⟩] at av
    rw [eq]
    cases h with
    | espera ha hc => exact absurd hc (by decide)
    | inicio ha hc => exact absurd hc (by decide)
    | bit mic' ha hn => exact acta_sube sclk_7F sclk_80 (by simp) (by simp) av (by simp) (fiel.bit rfl (by simp))
    | baja mic' ha hn hc => exact absurd rfl (hu rfl)
    | alta mic' ha hn hc => exact absurd hc (by decide)
    | cierre ha => exact acta_sube sclk_7F sclk_80 (by simp) (by simp) av (by simp) rfl
  · have clock : i2cSclk { s with ctmp := s.ctmp + 1#8 } = i2cSclk s := sclk_cuenta (h.no_down h5 hd) hm
    have wires : lineas { s with ctmp := s.ctmp + 1#8 } = lineas s := by
      rw [lineas, clock]
      rfl
    have same : pos { s with ctmp := s.ctmp + 1#8 } = pos s := by simp only [pos, clock]
    rw [eq, wires, suceso_same, acta, acta, same]
    exact (List.append_nil _).symm

/-- An edge adds to the bus what happens in its cycle. -/
lemma acta_clk {mic : Bool} {s : St} {i : In} (fiel : Fiel mic s) (h : Inv s)
    (ack : s.ep = .e2 → i.esclavo = false) :
    acta mic (clk s i) = acta mic s ++ (suceso (lineas s) (lineas (clk s i))).toList := by
  have av := avance h i
  have nada := avance_nada (i := i) h
  have step := clk_step s i
  generalize eq : clk s i = s' at step av nada ⊢
  cases step with
  | cuenta h5 hu hd =>
    rw [← eq]
    exact acta_cuenta fiel h h5 hu hd
  | inicio =>
    exact acta_start sclk_FF sclk_80 rfl rfl (fiel.alta rfl) rfl rfl (nada (pulsoDe_none (.inl sclk_FF)) rfl)
  | bit | libera | byte | cierre | final =>
    exact acta_cae sclk_FF sclk_00 (by simp) (by simp) rfl (nada (pulsoDe_none (.inl sclk_FF)) rfl)
  | nack hs => exact absurd (ack rfl) (by rw [hs]; decide)
  | @ack n a d hs =>
    have pulse : pulsoDe ⟨.e2, n, a, 0x7F#8, d⟩ i = some (.ranura i.esclavo) := by
      rw [pulsoDe, eq, if_pos ⟨sclk_7F, sclk_80⟩]
    rw [pulse, hs] at av
    exact acta_sube sclk_7F sclk_80 (by simp) (by simp) av (by simp) rfl
  | palabra ha =>
    cases h with
    | cierre le => exact acta_stop sclk_FF sclk_80 rfl rfl rfl rfl rfl (pos_cierre_alta sclk_FF)
  | fin =>
    rw [suceso_same]
    exact (List.append_nil _).symm

/-! ## The runs in which every byte is acknowledged -/

/-- What happens on the wires in a run. -/
def sucesos (w : ℕ → In) (t : ℕ) : Option Suceso :=
  suceso ⟨sclk w t, sdat w t⟩ ⟨sclk w (t + 1), sdat w (t + 1)⟩

/-- What the configuration writes. -/
def escritura (mic : Bool) : List Leido :=
  (List.range 8).flatMap fun a => .start :: (octetos mic a).map .byte ++ [.stop]

section Acks
variable {w : ℕ → In} (ack : ∀ t, libre w t = true → (w t).esclavo = false)
include ack

/-- If the slave acknowledges everything, no byte is refused. -/
lemma no_rechaza (t : ℕ) : ¬ Rechaza (en w t) (w t) := by
  rintro ⟨e2, -, nack⟩
  have low := ack t (by simp [setbitz, e2])
  exact absurd (nack.symm.trans low) (by decide)

/-- Without a refusal every cycle takes one from the time that is left. -/
lemma falta_run (t : ℕ) : falta (en w t) = 59392 - t := by
  have count := cuenta_atras.counts (w := w) inv_reset (c := 0) t fun x _ _ => no_rechaza ack x
  have full := cuenta_atras.starts (w := w) inv_reset falta_reset (.inl rfl)
  rwa [Nat.zero_add, full] at count

/-- The bit of `mic_lin` is loaded in cycle 28415. -/
lemma carga_micLin (t : ℕ) (ld : ldbit (en w t) = true) (h3 : (en w t).caddr = 3) (h21 : (en w t).cbits = 21) :
    t = 28415 := by
  have left := falta_run ack t
  have inv := inv_run w t
  have now : falta (en w t) = 30977 := by
    generalize en w t = s at *
    cases inv with
    | @bit n a c mic ha hn =>
      obtain rfl : a = 3 := h3
      obtain rfl : n = 20 := Nat.succ.inj h21
      obtain rfl : c = 0xFF#8 := by simpa [ldbit, down, stop] using ld
      simp only [falta, BitVec.toNat_ofNat, laddr]
    | baja mic ha hn hc | alta mic ha hn hc =>
      have sum := Nat.succ.inj h21
      omega
    | _ => cases h21
  omega

/-- Every bit on the line is that of the word with the switch of cycle 28415. -/
lemma fiel_run (t : ℕ) : Fiel (w 28415).micLin (en w t) := by
  induction t with
  | zero => exact ⟨fun _ => rfl, nofun⟩
  | succ t ih =>
    refine ih.clk (inv_run w t) (fun e2 => ack t (by simp [setbitz, e2])) fun ld h3 h21 => ?_
    rw [carga_micLin ack t ld h3 h21]

/-- The wires of a run are those of its states. -/
lemma lineas_en (t : ℕ) : lineas (en w t) = ⟨sclk w t, sdat w t⟩ := by
  rw [lineas, sclk_en, sdat_en, i2cSdat]
  cases free : setbitz (en w t) with
  | true => rw [if_pos rfl, if_pos rfl, ack t free]
  | false => rfl

/-- What has happened on the wires is what the state says. -/
lemma acta_run (t : ℕ) : log (sucesos w) t = acta (w 28415).micLin (en w t) := by
  induction t with
  | zero => rfl
  | succ t ih =>
    have step := acta_clk (fiel_run ack t) (inv_run w t) fun e2 => ack t (by simp [setbitz, e2])
    rw [log_succ, ih, sucesos, ← lineas_en ack t, ← lineas_en ack (t + 1)]
    exact step.symm

/-- At the end, the words of the configuration but for the last stop. -/
lemma acta_fin (t : ℕ) (le : 59392 ≤ t) :
    log (sucesos w) t ++ [.stop] = ((List.range 8).map (octetos (w 28415).micLin)).flatMap trama := by
  have e5 : (en w t).ep = .e5 := falta_zero.mp ((falta_run ack t).trans (Nat.sub_eq_zero_of_le le))
  have inv := inv_run w t
  rw [acta_run ack]
  generalize en w t = s at e5 inv
  cases inv with
  | fin =>
    have all : (palabra laddr).take 28 = palabra laddr := List.take_of_length_le (Nat.le_refl 28)
    rw [acta, if_neg nofun, show pos _ = 28 from rfl, all, List.flatMap_map, List.range_succ,
      List.flatMap_append, List.flatMap_singleton, trama_palabra, List.append_assoc]
    rfl
  | _ => cases e5

/-- If the slave acknowledges every byte, from the wires are read the eight words of the configuration, in
order and byte by byte, all of them after 59392 cycles and with no stop after the last one: whatever
`mic_lin` does, with its value in cycle 28415. -/
theorem auSetup_escribe (s : BitVec 8 × ℕ) (t : ℕ) :
    lector.answers s (log (sucesos w) t) <+: (escritura (w 28415).micLin).dropLast ∧
      (59392 ≤ t → lector.answers s (log (sucesos w) t) = (escritura (w 28415).micLin).dropLast) := by
  have fin (t : ℕ) (le : 59392 ≤ t) :
      lector.answers s (log (sucesos w) t) = (escritura (w 28415).micLin).dropLast := by
    have read := answers_tramas ((List.range 8).map (octetos (w 28415).micLin)) s
    rw [← acta_fin ack t le, Transducer.answers_append, List.flatMap_map] at read
    exact (List.dropLast_concat ..).symm.trans (congrArg List.dropLast read)
  refine ⟨?_, fin t⟩
  obtain ⟨more, eq⟩ := log_prefix (sucesos w) (Nat.le_add_right t 59392)
  rw [← fin (t + 59392) (Nat.le_add_left _ _), ← eq, Transducer.answers_append]
  exact List.prefix_append _ _

end Acks

/-- A slave that acknowledges, and a switch that moves in every cycle. -/
def oscila : ℕ → In := fun t => ⟨t % 2 = 1, false⟩

/-- With that switch all eight words are read from the wires, but for the last stop. -/
theorem auSetup_escribe_oscila :
    lector.answers (0, 0) (log (sucesos oscila) 60000) = (escritura true).dropLast := by
  obtain ⟨-, fin⟩ := auSetup_escribe (w := oscila) (fun _ _ => rfl) (0, 0) 60000
  exact fin (by decide)

end AuSetup
