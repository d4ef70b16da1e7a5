import TecMidi.Audio.Afinacion
import TecMidi.Soft.Frase
import TecMidi.System.Puntual

/-!
# The board: from the MIDI line to the audio line

The system with the `SoundModule` of `avalon_SoundMIDI`, which takes the slices of its data register, and
the clocks of the codec. `Voz` is what these slices hold, and `voz_tras` says what they hold after what has
been played: the note of the reset, and from the first press on the last one, on while its phrase is open.

`placa_toca` is the way of the notes through all of the board: a line of MIDI messages at one end, and the
words in the audio frames at the other.
-/

/-- What `SoundModule` is told to play. -/
structure Voz where
  enable : Bool
  key : BitVec 7
  vel : BitVec 7
deriving DecidableEq, Repr

namespace AvalonSound

/-- The slices of the data register. -/
def voz (s : AvalonSound) : Voz := ⟨s.enable, s.key, s.vel⟩

end AvalonSound

namespace Placa
open Sync Series Gesto

/-- What a player does, with the numbers of the MIDI messages. -/
abbrev Tecleo := Gesto (BitVec 7) (BitVec 7)

/-- A Note On is a press, and a Note Off a release. -/
def gesto (e : Midi.NoteEvent) : Tecleo := if e.on = true then .pulsa e.key e.vel else .despulsa e.key e.vel

section Voz
variable (C : AvalonRx.Cableado)

/-- The codes of `avalon_RxDecMIDI`. -/
def codigos : Tecleo → Nota.Toque := Gesto.map C.keyCode C.velCode

/-- What is played after `gs`: at first the note of the reset. -/
def voz (gs : List Tecleo) : Voz :=
  match ultima gs with
  | none => ⟨true, 67#7, 127#7⟩
  | some (k, v) => ⟨(frase gs).isSome, (C.keyCode k).extractLsb' 0 7, (C.velCode v).extractLsb' 0 7⟩

variable {C}

/-- The software reads a note as its gesture. -/
lemma evento_gesto (e : Midi.NoteEvent) : Nota.evento (codigos C (gesto e)) = C.aviso e := by
  obtain ⟨on, k, v⟩ := e
  cases on <;> rfl

/-- The word in `notavel` is what `SoundModule` is told. -/
lemma voz_datos {n : Nota} {k v : BitVec 8} (datos : n.datos = v ++ k) :
    (⟨n.notavel⟩ : AvalonSound).voz = ⟨n.enable, k.extractLsb' 0 7, v.extractLsb' 0 7⟩ := by
  have key : n.tecla = k := by
    rw [Nota.tecla_datos, datos]
    exact BitVec.extractLsb'_append_eq_right
  have vel : n.velocidad = v := by
    rw [Nota.velocidad_datos, datos]
    exact BitVec.extractLsb'_append_eq_left
  rw [← key, ← vel]
  rfl

/-- The codec is told to play the last press, while its phrase is open. -/
lemma voz_tras (p q : BitVec 32) {gs : List Tecleo} {ks : Finset (BitVec 7)} (toca : Toca gs ks)
    (pocas : ∀ hs, hs <+: gs → presiones hs < 0x80000000) :
    (⟨(Nota.tras p q (gs.map (codigos C))).notavel⟩ : AvalonSound).voz = voz C gs := by
  by_cases nil : gs = []
  · rw [nil]
    change (⟨0x17F43#32⟩ : AvalonSound).voz = ⟨true, 67#7, 127#7⟩
    decide
  · have toca' := toca.map C.inj C.velCode
    have r : Nota.Refiere (Nota.tras p q (gs.map (codigos C))) (gs.map (codigos C)) := by
      apply Nota.refiere p q toca'
      intro hs pre
      obtain ⟨hs', pre', rfl⟩ := List.prefix_map_iff.mp pre
      rw [presiones_map C.inj]
      exact pocas hs' pre'
    obtain ⟨k, v, last⟩ := toca.pulsada nil
    have last' : ultima (gs.map (codigos C)) = some (C.keyCode k, C.velCode v) := by
      rw [codigos, ultima_map, last]
      rfl
    have open_ : (frase (gs.map (codigos C))).isSome = (frase gs).isSome := by
      rw [codigos, frase_map C.inj, Option.isSome_map]
    rw [voz_datos (Nota.tras_datos p q last'), r.enable (by simpa using nil), open_, voz, last]

/-- With the wiring in `new` that is the key and the velocity of the press, whatever the undriven bits. -/
lemma voz_nueva (u : AvalonRx.Undriven) {gs : List Tecleo} {k v : BitVec 7} (last : ultima gs = some (k, v)) :
    voz (.nueva u) gs = ⟨(frase gs).isSome, k, v⟩ := by
  have key : (BitVec.ofBool u.key ++ k).extractLsb' 0 7 = k := BitVec.extractLsb'_append_eq_right
  have vel : (BitVec.ofBool u.vel ++ v).extractLsb' 0 7 = v := BitVec.extractLsb'_append_eq_right
  rw [voz, last]
  exact congrArg₂ (Voz.mk (frase gs).isSome) key vel

/-- With the wiring in use a key sounds as its double, and only twelve of these have an increment. -/
lemma delta_actual (u : AvalonRx.Undriven) (k : BitVec 7) (muda : ¬ (30 ≤ k.toNat % 64 ∧ k.toNat % 64 ≤ 35)) :
    SinDDS.delta ((k ++ BitVec.ofBool u.key).extractLsb' 0 7) = 0#16 := by
  generalize u.key = low
  revert low k
  decide

end Voz

/-! ## The board -/

/-- The system and `SoundModule`. -/
structure St where
  sistema : Sistema.St
  modulo : SoundModule.St

/-- The inputs of the system, and the clocks of the codec. -/
structure In where
  sistema : Sistema.In
  daclrc : Bool
  bclk : Bool

/-- The port map of `SoundModule` in `avalon_SoundMIDI`. -/
def puertos (s : AvalonSound) (i : In) : SoundModule.In where
  daclrc := i.daclrc
  bclk := i.bclk
  enable := s.enable
  vel := s.vel
  key := s.key

/-- The system and `SoundModule` on one clock, with a wiring of the receiver. -/
def placa (C : AvalonRx.Cableado) : Machine St In SoundModule.Out where
  next s i := ⟨C.sistema.next s.sistema i.sistema,
    SoundModule.soundModule.next s.modulo (puertos s.sistema.sonido i)⟩
  out s i := SoundModule.soundModule.out s.modulo (puertos s.sistema.sonido i)

/-- After reset, with `main` at the start of its loop. -/
def reset (codeReg : BitVec 4) (d p t : BitVec 32) : St := ⟨Sistema.reset codeReg d p t, SoundModule.reset⟩

section Runs
variable (C : AvalonRx.Cableado) (codeReg : BitVec 4) (d p t : BitVec 32) (w : ℕ → In)

/-- The inputs of the system. -/
abbrev sistemaIn (n : ℕ) : Sistema.In := (w n).sistema

/-- The inputs of `SoundModule` in the run from reset. -/
def sonidoIn (n : ℕ) : SoundModule.In :=
  puertos (C.en (Sistema.reset codeReg d p t) (sistemaIn w) n).sonido (w n)

/-- The line to the codec. -/
abbrev dacDat (n : ℕ) : Bool := ((placa C).wave (reset codeReg d p t) w n).dacDat

/-- The phase. -/
abbrev fase (n : ℕ) : BitVec 16 := ((placa C).run (reset codeReg d p t) w n).modulo.q

/-- The notes pulsed before cycle `n`, as gestures. -/
def tocadas (n : ℕ) : List Tecleo :=
  (log (C.nota (Sistema.reset codeReg d p t) (sistemaIn w)) n).map gesto

/-- A run of the board is one of the system and one of `SoundModule`. -/
lemma run_placa (n : ℕ) : (placa C).run (reset codeReg d p t) w n =
    ⟨C.en (Sistema.reset codeReg d p t) (sistemaIn w) n,
      SoundModule.soundModule.run SoundModule.reset (sonidoIn C codeReg d p t w) n⟩ := by
  induction n with
  | zero => rfl
  | succ n ih =>
    rw [Machine.run_succ, ih]
    rfl

/-- The line to the codec is that of `SoundModule`. -/
lemma dacDat_salida (n : ℕ) :
    dacDat C codeReg d p t w n = (SoundModule.salida (sonidoIn C codeReg d p t w) n).dacDat := by
  rw [dacDat, Machine.wave, run_placa]
  rfl

/-- The phase is that of `SoundModule`. -/
lemma fase_modulo (n : ℕ) : fase C codeReg d p t w n = SoundModule.fase (sonidoIn C codeReg d p t w) n := by
  rw [fase, run_placa]

variable {w} {K : ℕ} {ks : Finset (BitVec 7)}

/-- After `K` cycles without a note `SoundModule` is told to play what has been pulsed. -/
lemma sonidoIn_voz (corto : K < 30444) (ventanas : Sistema.Ventanas (sistemaIn w) K) {n : ℕ} (le : K ≤ n)
    (quiet : ∀ x < n, C.nota (Sistema.reset codeReg d p t) (sistemaIn w) x ≠ none → x + K < n)
    (toca : Toca (tocadas C codeReg d p t w n) ks)
    (pocas : ∀ hs, hs <+: tocadas C codeReg d p t w n → presiones hs < 0x80000000) :
    (⟨(sonidoIn C codeReg d p t w n).enable, (sonidoIn C codeReg d p t w n).key,
      (sonidoIn C codeReg d p t w n).vel⟩ : Voz) = voz C (tocadas C codeReg d p t w n) := by
  obtain ⟨codec, nota⟩ := Sistema.puntual_codec C codeReg d p t corto ventanas le quiet
  have played : (Nota.inicial p t).aplicaTodos
      (log (C.avisos (Sistema.reset codeReg d p t) (sistemaIn w)) n) =
        Nota.tras p t ((tocadas C codeReg d p t w n).map (codigos C)) := by
    have avisos : log (C.avisos (Sistema.reset codeReg d p t) (sistemaIn w)) n =
        (log (C.nota (Sistema.reset codeReg d p t) (sistemaIn w)) n).map C.aviso :=
      log_map _ _ n
    rw [avisos, Nota.tras, tocadas, List.map_map, List.map_map]
    congr 1
    exact (List.map_congr_left fun e _ => evento_gesto e).symm
  rw [← voz_tras p t toca pocas, ← played, ← nota, ← codec]
  rfl

/-- As long as no note comes, the frames have the samples of one note. -/
lemma suena (corto : K < 30444) (ventanas : Sistema.Ventanas (sistemaIn w) K)
    (c : Clocks (fun n => (w n).bclk) fun n => (w n).daclrc) {a b : ℕ}
    (first : Begins (fun n => (w n).daclrc) a) (ab : a ≤ b) (le : K ≤ a + 2)
    (quiet : ∀ x < b + 2, C.nota (Sistema.reset codeReg d p t) (sistemaIn w) x ≠ none → x + K < a + 2)
    (toca : Toca (tocadas C codeReg d p t w (a + 2)) ks)
    (pocas : ∀ hs, hs <+: tocadas C codeReg d p t w (a + 2) → presiones hs < 0x80000000) :
    ∃ v : BitVec 16, Carries (fun n => (w n).bclk) (fun n => (w n).daclrc) (dacDat C codeReg d p t w) v b ∧
      v.toInt = SoundModule.muestra (((fase C codeReg d p t w (a + 2)).toNat +
          (SoundModule.tramas (fun n => (w n).daclrc) a b).card *
            (SinDDS.delta (voz C (tocadas C codeReg d p t w (a + 2))).key).toNat) % 65536)
        (voz C (tocadas C codeReg d p t w (a + 2))).enable (voz C (tocadas C codeReg d p t w (a + 2))).vel := by
  -- what is played does not change
  have same {x : ℕ} (lo : a ≤ x) (hi : x ≤ b) :
      tocadas C codeReg d p t w (x + 2) = tocadas C codeReg d p t w (a + 2) := by
    rw [tocadas, tocadas, log_of_quiet (m := a + 2) (by omega)]
    intro y ly hy
    by_contra some
    have early := quiet y (by omega) some
    omega
  have told {x : ℕ} (lo : a ≤ x) (hi : x ≤ b) :
      (⟨(sonidoIn C codeReg d p t w (x + 2)).enable, (sonidoIn C codeReg d p t w (x + 2)).key,
        (sonidoIn C codeReg d p t w (x + 2)).vel⟩ : Voz) = voz C (tocadas C codeReg d p t w (a + 2)) := by
    rw [← same lo hi] at toca pocas ⊢
    refine sonidoIn_voz C codeReg d p t corto ventanas (by omega) (fun y ly some => ?_) toca pocas
    have early := quiet y (by omega) some
    omega
  rw [show dacDat C codeReg d p t w = fun n => (SoundModule.salida (sonidoIn C codeReg d p t w) n).dacDat from
    funext (dacDat_salida C codeReg d p t w), fase_modulo]
  generalize voz C (tocadas C codeReg d p t w (a + 2)) = z at told
  obtain ⟨on, k, v⟩ := z
  cases on with
  | true =>
    apply SoundModule.corriente_sostenida (w := sonidoIn C codeReg d p t w) c first ab
    intro x lo hi
    injection told lo hi with enable key vel
    exact ⟨enable, key, vel⟩
  | false =>
    refine ⟨_, SoundModule.lleva (w := sonidoIn C codeReg d p t w) c b, ?_⟩
    injection told ab (Nat.le_refl b) with enable
    rw [SoundModule.toInt_sample, enable]
    rfl

section Line
variable {P : ℕ} {fs : List (ℕ × Midi.Byte)} {ms : List Midi.Message} (lo : 1530 ≤ P) (hi : P ≤ 1690)
  (line : ∀ n, (w n).sistema.rxMidi = Serial.line P fs n) (legal : Midi.Legal none ms)
  (sent : fs.map Prod.snd = ms.flatMap Midi.Message.bytes)

include lo hi line legal sent

/-- On a line of messages these are the notes. -/
lemma notas_line : Emits (C.nota (Sistema.reset codeReg d p t) (sistemaIn w))
    (ms.filterMap Midi.Message.event?) (Serial.duration P fs + 4) := by
  have emits := Codificador.codificador_line (r := codeReg) lo hi fs
  rw [sent, show Midi.Dec.idle = .between none from rfl, Midi.decoder_messages none ms legal] at emits
  have same : C.nota (Sistema.reset codeReg d p t) (sistemaIn w) =
      Codificador.events codeReg (Serial.line P fs) := by
    funext n
    rw [show Serial.line P fs = fun n => (sistemaIn w n).rxMidi from funext fun n => (line n).symm]
    exact C.nota_codificador _ _ n
  rwa [same]

/-- So what has been pulsed at any time is the beginning of what has been played. -/
lemma tocadas_prefix (n : ℕ) :
    tocadas C codeReg d p t w n <+: (ms.filterMap Midi.Message.event?).map gesto ∧
      (Serial.duration P fs + 4 ≤ n →
        tocadas C codeReg d p t w n = (ms.filterMap Midi.Message.event?).map gesto) := by
  have emits := notas_line C codeReg d p t lo hi line legal sent
  constructor
  · rw [← emits (n + (Serial.duration P fs + 4)) (Nat.le_add_left _ _)]
    apply List.IsPrefix.map
    exact log_prefix _ (Nat.le_add_right _ _)
  · intro le
    rw [tocadas, emits n le]

/-- After the last message no note comes. -/
lemma quiet_line {a b : ℕ} (late : Serial.duration P fs + 4 + K ≤ a + 2) : ∀ x < b,
    C.nota (Sistema.reset codeReg d p t) (sistemaIn w) x ≠ none → x + K < a + 2 := by
  intro x _ some
  have emits := notas_line C codeReg d p t lo hi line legal sent
  by_contra near
  exact some (emits.quiet (by omega))

/-- End to end: while a punctual processor serves a line of messages, a frame that begins `K` cycles or more
after a note carries what has been played by then, as do the following ones until the next note: the sine of
the last press while its phrase is open, with one step of the phase a frame, and 0 afterwards. -/
theorem placa_toca (corto : K < 30444) (ventanas : Sistema.Ventanas (sistemaIn w) K)
    (c : Clocks (fun n => (w n).bclk) fun n => (w n).daclrc)
    (toca : Toca ((ms.filterMap Midi.Message.event?).map gesto) ks)
    (pocas : ∀ hs, hs <+: (ms.filterMap Midi.Message.event?).map gesto → presiones hs < 0x80000000)
    {a b : ℕ} (first : Begins (fun n => (w n).daclrc) a) (ab : a ≤ b) (le : K ≤ a + 2)
    (quiet : ∀ x < b + 2, C.nota (Sistema.reset codeReg d p t) (sistemaIn w) x ≠ none → x + K < a + 2) :
    tocadas C codeReg d p t w (a + 2) <+: (ms.filterMap Midi.Message.event?).map gesto ∧
      (Serial.duration P fs + 4 ≤ a + 2 →
        tocadas C codeReg d p t w (a + 2) = (ms.filterMap Midi.Message.event?).map gesto) ∧
      ∃ v : BitVec 16, Carries (fun n => (w n).bclk) (fun n => (w n).daclrc) (dacDat C codeReg d p t w) v b ∧
        v.toInt = SoundModule.muestra (((fase C codeReg d p t w (a + 2)).toNat +
            (SoundModule.tramas (fun n => (w n).daclrc) a b).card *
              (SinDDS.delta (voz C (tocadas C codeReg d p t w (a + 2))).key).toNat) % 65536)
          (voz C (tocadas C codeReg d p t w (a + 2))).enable
          (voz C (tocadas C codeReg d p t w (a + 2))).vel := by
  obtain ⟨pre, all⟩ := tocadas_prefix C codeReg d p t lo hi line legal sent (a + 2)
  obtain ⟨ks', toca'⟩ := toca.prefix_toca pre
  exact ⟨pre, all, suena C codeReg d p t corto ventanas c first ab le quiet toca'
    fun hs pre' => pocas hs (pre'.trans pre)⟩

/-- With the wiring in `new`, the frames after the last message carry the sine of the key and the velocity
that were pressed last, while their phrase is open. -/
theorem placa_nueva (u : AvalonRx.Undriven) (corto : K < 30444) (ventanas : Sistema.Ventanas (sistemaIn w) K)
    (c : Clocks (fun n => (w n).bclk) fun n => (w n).daclrc)
    (toca : Toca ((ms.filterMap Midi.Message.event?).map gesto) ks)
    (pocas : ∀ hs, hs <+: (ms.filterMap Midi.Message.event?).map gesto → presiones hs < 0x80000000)
    {k v : BitVec 7} (last : ultima ((ms.filterMap Midi.Message.event?).map gesto) = some (k, v))
    {a b : ℕ} (first : Begins (fun n => (w n).daclrc) a) (ab : a ≤ b)
    (late : Serial.duration P fs + 4 + K ≤ a + 2) :
    ∃ x : BitVec 16, Carries (fun n => (w n).bclk) (fun n => (w n).daclrc)
        (dacDat (.nueva u) codeReg d p t w) x b ∧
      x.toInt = SoundModule.muestra (((fase (.nueva u) codeReg d p t w (a + 2)).toNat +
          (SoundModule.tramas (fun n => (w n).daclrc) a b).card * (SinDDS.delta k).toNat) % 65536)
        (frase ((ms.filterMap Midi.Message.event?).map gesto)).isSome v := by
  obtain ⟨-, all⟩ := tocadas_prefix (.nueva u) codeReg d p t lo hi line legal sent (a + 2)
  rw [← all (by omega)] at toca pocas last ⊢
  have sounds := suena (.nueva u) codeReg d p t corto ventanas c first ab (by omega)
    (quiet_line (.nueva u) codeReg d p t lo hi line legal sent late) toca pocas
  rwa [voz_nueva u last] at sounds

/-- So while a phrase whose last press is a key of the table stays open, the line to the codec is heard as a
sine of the tempered frequency of that key, with the amplitude of its velocity. -/
theorem placa_afinada (u : AvalonRx.Undriven) (corto : K < 30444) (ventanas : Sistema.Ventanas (sistemaIn w) K)
    (c : Clocks (fun n => (w n).bclk) fun n => (w n).daclrc)
    (toca : Toca ((ms.filterMap Midi.Message.event?).map gesto) ks)
    (pocas : ∀ hs, hs <+: (ms.filterMap Midi.Message.event?).map gesto → presiones hs < 0x80000000)
    {k v : BitVec 7} (last : ultima ((ms.filterMap Midi.Message.event?).map gesto) = some (k, v))
    (abierta : (frase ((ms.filterMap Midi.Message.event?).map gesto)).isSome = true)
    (sesenta : 60 ≤ k.toNat) (setenta : k.toNat ≤ 71) {a : ℕ} (first : Begins (fun n => (w n).daclrc) a)
    (late : Serial.duration P fs + 4 + K ≤ a + 2) :
    ∃ f φ : ℝ, |f - SinDDS.temperada k.toNat / SinDDS.muestreo| < 1 / 131072 ∧ ∀ b, a ≤ b →
      ∃ x : BitVec 16, Carries (fun n => (w n).bclk) (fun n => (w n).daclrc)
          (dacDat (.nueva u) codeReg d p t w) x b ∧
        |(x.toInt : ℝ) - 32767 * (v.toNat / 128) *
            Real.sin (2 * Real.pi * (φ + (SoundModule.tramas (fun n => (w n).daclrc) a b).card * f))| ≤
          1 + 802 * (v.toNat / 128) := by
  refine ⟨_, (fase (.nueva u) codeReg d p t w (a + 2)).toNat / 65536,
    SinDDS.delta_afinada sesenta setenta, fun b ab => ?_⟩
  obtain ⟨x, carries, eq⟩ := placa_nueva codeReg d p t lo hi line legal sent u corto ventanas c toca pocas last
    first ab late
  refine ⟨x, carries, ?_⟩
  have sine := SinDDS.muestra_seno ((fase (.nueva u) codeReg d p t w (a + 2)).toNat +
    (SoundModule.tramas (fun n => (w n).daclrc) a b).card * (SinDDS.delta k).toNat) v
  push_cast [add_div, mul_div_assoc] at sine
  rwa [eq, abierta]

/-- With the wiring in use the octave of the table, keys 60 to 71, is mute: after the last press of any key but 30
to 35 and 94 to 99, all frames carry one and the same word. -/
theorem placa_muda (u : AvalonRx.Undriven) (corto : K < 30444) (ventanas : Sistema.Ventanas (sistemaIn w) K)
    (c : Clocks (fun n => (w n).bclk) fun n => (w n).daclrc)
    (toca : Toca ((ms.filterMap Midi.Message.event?).map gesto) ks)
    (pocas : ∀ hs, hs <+: (ms.filterMap Midi.Message.event?).map gesto → presiones hs < 0x80000000)
    {k v : BitVec 7} (last : ultima ((ms.filterMap Midi.Message.event?).map gesto) = some (k, v))
    (muda : ¬ (30 ≤ k.toNat % 64 ∧ k.toNat % 64 ≤ 35)) {a : ℕ} (first : Begins (fun n => (w n).daclrc) a)
    (late : Serial.duration P fs + 4 + K ≤ a + 2) :
    ∃ x : BitVec 16, ∀ b, a ≤ b → Carries (fun n => (w n).bclk) (fun n => (w n).daclrc)
      (dacDat (.actual u) codeReg d p t w) x b := by
  obtain ⟨-, all⟩ := tocadas_prefix (.actual u) codeReg d p t lo hi line legal sent (a + 2)
  rw [← all (by omega)] at toca pocas last
  have still : (SinDDS.delta (voz (.actual u) (tocadas (.actual u) codeReg d p t w (a + 2))).key).toNat = 0 := by
    rw [voz, last]
    exact congrArg BitVec.toNat (delta_actual u k muda)
  have sounds {b : ℕ} (ab : a ≤ b) := suena (.actual u) codeReg d p t corto ventanas c first ab (by omega)
    (quiet_line (.actual u) codeReg d p t lo hi line legal sent late) toca pocas
  simp only [still, Nat.mul_zero, Nat.add_zero] at sounds
  -- all of them have the sample of the first frame
  obtain ⟨x, -, eq⟩ := sounds (Nat.le_refl a)
  refine ⟨x, fun b ab => ?_⟩
  obtain ⟨x', carries, eq'⟩ := sounds ab
  rwa [BitVec.eq_of_toInt_eq (eq'.trans eq.symm)] at carries

/-- When all keys have been released, the frames from then on carry silence. -/
theorem placa_calla (corto : K < 30444) (ventanas : Sistema.Ventanas (sistemaIn w) K)
    (c : Clocks (fun n => (w n).bclk) fun n => (w n).daclrc)
    (toca : Toca ((ms.filterMap Midi.Message.event?).map gesto) ∅)
    (some_ : ms.filterMap Midi.Message.event? ≠ [])
    (pocas : ∀ hs, hs <+: (ms.filterMap Midi.Message.event?).map gesto → presiones hs < 0x80000000)
    {a : ℕ} (begins : Begins (fun n => (w n).daclrc) a) (late : Serial.duration P fs + 4 + K ≤ a + 2) :
    Carries (fun n => (w n).bclk) (fun n => (w n).daclrc) (dacDat C codeReg d p t w) 0#16 a := by
  obtain ⟨-, all⟩ := tocadas_prefix C codeReg d p t lo hi line legal sent (a + 2)
  have played := all (by omega)
  rw [← played] at toca pocas
  obtain ⟨v, carries, eq⟩ := suena C codeReg d p t corto ventanas c begins (Nat.le_refl a) (by omega)
    (quiet_line C codeReg d p t lo hi line legal sent late) toca pocas
  obtain ⟨k, z, last⟩ := toca.pulsada (by rw [played]; simpa using some_)
  have off : (voz C (tocadas C codeReg d p t w (a + 2))).enable = false := by
    rw [voz, last, toca.cerrada]
    rfl
  rw [off, SoundModule.muestra, if_neg (by simp)] at eq
  obtain rfl : v = 0#16 := BitVec.eq_of_toInt_eq eq
  exact carries

end Line

end Runs

/-- A line at 1600 cycles a bit, a processor that alternates and a codec with 17 bits a channel. -/
def ejemplo (fs : List (ℕ × Midi.Byte)) (n : ℕ) : In where
  sistema := Sistema.alterna (Serial.line 1600 fs) n
  daclrc := (SoundModule.maestro n).daclrc
  bclk := (SoundModule.maestro n).bclk

/-- Key 30 is pressed. -/
def pulsa : List Midi.Message := [.note ⟨true, 30#7, 50#7⟩ 0#4 false]

/-- The frames of `pulsa` at 1600 cycles a bit, without gaps. -/
def pulsaFs : List (ℕ × Midi.Byte) := [(0, 0x90#8), (0, 30#8), (0, 50#8)]

/-- A player may press key 30. -/
lemma pulsa_toca : Toca ([] ++ [.pulsa 30#7 50#7] : List Tecleo) (insert 30#7 ∅) := .pulsa .nada (by decide)

/-- It is heard as the sine of key 60 with velocity 100. -/
theorem placa_toca_una :
    ∃ v : BitVec 16, Carries (fun n => (ejemplo pulsaFs n).bclk) (fun n => (ejemplo pulsaFs n).daclrc)
        (dacDat (.actual ⟨false, false⟩) 0#4 0#32 0#32 0#32 (ejemplo pulsaFs)) v 48551 ∧
      v.toInt = SoundModule.muestra (((fase (.actual ⟨false, false⟩) 0#4 0#32 0#32 0#32
          (ejemplo pulsaFs) (48279 + 2)).toNat +
          (SoundModule.tramas (fun n => (ejemplo pulsaFs n).daclrc) 48279 48551).card *
            (SinDDS.delta 60#7).toNat) % 65536) true 100#7 := by
  have legal : Midi.Legal none pulsa := by simp [pulsa, Midi.Legal]
  have late : Serial.duration 1600 pulsaFs + 4 + 52 ≤ 48279 + 2 := by decide
  obtain ⟨-, all, sounds⟩ := placa_toca (.actual ⟨false, false⟩) 0#4 0#32 0#32 0#32 (P := 1600) (by decide)
    (by decide) (w := ejemplo pulsaFs) (fun _ => rfl) legal (by decide) (K := 52) (by decide)
    (Sistema.alterna_ventanas _) SoundModule.maestro_clocks pulsa_toca (presiones_lt (by decide)) (a := 48279) (b := 48551)
    ⟨by decide, by decide⟩ (by decide) (by decide)
    (quiet_line _ 0#4 0#32 0#32 0#32 (by decide) (by decide) (fun _ => rfl) legal (by decide) late)
  have key : (voz (.actual ⟨false, false⟩) ((pulsa.filterMap Midi.Message.event?).map gesto)).key = 60#7 := by
    decide
  have vel : (voz (.actual ⟨false, false⟩) ((pulsa.filterMap Midi.Message.event?).map gesto)).vel = 100#7 := by
    decide
  have on : (voz (.actual ⟨false, false⟩) ((pulsa.filterMap Midi.Message.event?).map gesto)).enable = true := by
    decide
  rw [all (by decide), key, vel, on] at sounds
  exact sounds

/-- The central key of the table. -/
def central : List Midi.Message := [.note ⟨true, 65#7, 50#7⟩ 0#4 false]

/-- The frames of `central`. -/
def centralFs : List (ℕ × Midi.Byte) := [(0, 0x90#8), (0, 65#8), (0, 50#8)]

/-- A player may press key 65. -/
lemma central_toca : Toca ([] ++ [.pulsa 65#7 50#7] : List Tecleo) (insert 65#7 ∅) := .pulsa .nada (by decide)

/-- With the wiring in `new` a key is heard as itself. -/
theorem placa_nueva_una :
    ∃ x : BitVec 16, Carries (fun n => (ejemplo centralFs n).bclk) (fun n => (ejemplo centralFs n).daclrc)
        (dacDat (.nueva ⟨true, true⟩) 0#4 0#32 0#32 0#32 (ejemplo centralFs)) x 48551 ∧
      x.toInt = SoundModule.muestra (((fase (.nueva ⟨true, true⟩) 0#4 0#32 0#32 0#32
          (ejemplo centralFs) (48279 + 2)).toNat +
          (SoundModule.tramas (fun n => (ejemplo centralFs n).daclrc) 48279 48551).card *
            (SinDDS.delta 65#7).toNat) % 65536) true 50#7 := by
  have legal : Midi.Legal none central := by simp [central, Midi.Legal]
  exact placa_nueva 0#4 0#32 0#32 0#32 (P := 1600) (by decide) (by decide) (w := ejemplo centralFs)
    (fun _ => rfl) legal (by decide) ⟨true, true⟩ (K := 52) (by decide) (Sistema.alterna_ventanas _)
    SoundModule.maestro_clocks central_toca (presiones_lt (by decide)) (by decide) (a := 48279) (b := 48551)
    ⟨by decide, by decide⟩ (by decide) (by decide)

/-- With the wiring in `new` key 65 sounds at its tempered frequency. -/
theorem placa_afinada_central :
    ∃ f φ : ℝ, |f - SinDDS.temperada 65 / SinDDS.muestreo| < 1 / 131072 ∧ ∀ b, 48279 ≤ b →
      ∃ x : BitVec 16, Carries (fun n => (ejemplo centralFs n).bclk) (fun n => (ejemplo centralFs n).daclrc)
          (dacDat (.nueva ⟨true, true⟩) 0#4 0#32 0#32 0#32 (ejemplo centralFs)) x b ∧
        |(x.toInt : ℝ) - 32767 * ((50 : ℕ) / 128) * Real.sin (2 * Real.pi *
            (φ + (SoundModule.tramas (fun n => (ejemplo centralFs n).daclrc) 48279 b).card * f))| ≤
          1 + 802 * ((50 : ℕ) / 128) := by
  have legal : Midi.Legal none central := by simp [central, Midi.Legal]
  exact placa_afinada 0#4 0#32 0#32 0#32 (P := 1600) (by decide) (by decide) (fun _ => rfl) legal (by decide)
    ⟨true, true⟩ (K := 52) (by decide) (Sistema.alterna_ventanas _) SoundModule.maestro_clocks central_toca
    (presiones_lt (by decide)) (k := 65#7) (v := 50#7) (by decide) (by decide) (by decide) (by decide)
    ⟨by decide, by decide⟩ (by decide)

/-- With the wiring in use key 65 is mute. -/
theorem placa_muda_central : ∃ x : BitVec 16, ∀ b, 48279 ≤ b → Carries (fun n => (ejemplo centralFs n).bclk)
    (fun n => (ejemplo centralFs n).daclrc) (dacDat (.actual ⟨true, true⟩) 0#4 0#32 0#32 0#32
      (ejemplo centralFs)) x b := by
  have legal : Midi.Legal none central := by simp [central, Midi.Legal]
  exact placa_muda 0#4 0#32 0#32 0#32 (P := 1600) (by decide) (by decide) (fun _ => rfl) legal (by decide)
    ⟨true, true⟩ (K := 52) (by decide) (Sistema.alterna_ventanas _) SoundModule.maestro_clocks central_toca
    (presiones_lt (by decide)) (k := 65#7) (v := 50#7) (by decide) (by decide) ⟨by decide, by decide⟩ (by decide)

/-- Key 60 is pressed and released. -/
def suelta : List Midi.Message := [.note ⟨true, 60#7, 100#7⟩ 0#4 false, .note ⟨false, 60#7, 0#7⟩ 0#4 false]

/-- The frames of `suelta`. -/
def sueltaFs : List (ℕ × Midi.Byte) :=
  [(0, 0x90#8), (0, 60#8), (0, 100#8), (0, 0x80#8), (0, 60#8), (0, 0#8)]

/-- After the release of key 60 nothing is heard. -/
theorem placa_calla_una : Carries (fun n => (ejemplo sueltaFs n).bclk) (fun n => (ejemplo sueltaFs n).daclrc)
    (dacDat (.actual ⟨false, false⟩) 0#4 0#32 0#32 0#32 (ejemplo sueltaFs)) 0#16 96151 := by
  have legal : Midi.Legal none suelta := by simp [suelta, Midi.Legal]
  have toca : Toca ([] ++ [.pulsa 60#7 100#7] ++ [.despulsa 60#7 0#7] : List Tecleo)
      ((insert 60#7 ∅ : Finset (BitVec 7)).erase 60#7) :=
    .despulsa (.pulsa .nada (by decide)) (by decide)
  rw [show (insert 60#7 ∅ : Finset (BitVec 7)).erase 60#7 = ∅ by decide] at toca
  exact placa_calla (.actual ⟨false, false⟩) 0#4 0#32 0#32 0#32 (P := 1600) (by decide) (by decide)
    (fun _ => rfl) legal (by decide) (K := 52) (by decide) (Sistema.alterna_ventanas _)
    SoundModule.maestro_clocks toca (by decide) (presiones_lt (by decide)) ⟨by decide, by decide⟩ (by decide)

end Placa
