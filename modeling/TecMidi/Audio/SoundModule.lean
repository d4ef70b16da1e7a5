import TecMidi.Audio.Frames
import TecMidi.Audio.SinDDS

/-!
# `SoundModule`

`au_out` and `sin_DDS` on the same clock: the samples of `sin_DDS` go to `au_out`, whose `ready` asks for
the next one. `soundModule_frames` puts together what a frame of the serial link carries and what it does
to the phase.
-/

namespace SoundModule
open Sync Series

/-- The registers of the two components. -/
structure St where
  auOut : AuOut.St
  q : BitVec 16
deriving DecidableEq, Repr

/-- The input ports, without the clock and the reset. -/
structure In where
  daclrc : Bool
  bclk : Bool
  enable : Bool
  vel : BitVec 7
  key : BitVec 7
deriving DecidableEq, Repr

/-- The output of `SoundModule`, and the signals between its components. -/
structure Out where
  dacDat : Bool
  ready : Bool
  sample : BitVec 16
deriving DecidableEq, Repr

/-- The port map of `sin_DDS`. -/
def puertosDDS (s : St) (i : In) : SinDDS.In :=
  ⟨UCauOut.ready s.auOut.ep, i.enable, i.vel, i.key⟩

/-- The port map of `au_out`. -/
def puertosAu (s : St) (i : In) : AuOut.In :=
  ⟨SinDDS.sinDDS.out s.q (puertosDDS s i), i.daclrc, i.bclk⟩

/-- The two components on one clock: `ready` of `au_out` is `nextsample` of `sin_DDS`. -/
def soundModule : Machine St In Out where
  next s i := ⟨AuOut.auOut.next s.auOut (puertosAu s i), SinDDS.sinDDS.next s.q (puertosDDS s i)⟩
  out s i :=
    { dacDat := (AuOut.auOut.out s.auOut (puertosAu s i)).dacDat
      ready := (AuOut.auOut.out s.auOut (puertosAu s i)).ready
      sample := SinDDS.sinDDS.out s.q (puertosDDS s i) }

/-- The state forced by the reset. -/
def reset : St := ⟨AuOut.reset, SinDDS.reset⟩

section Frames
variable (w : ℕ → In)

/-- The outputs in a cycle of the run from reset. -/
abbrev salida (t : ℕ) : Out := soundModule.wave reset w t

/-- The phase in a cycle. -/
abbrev fase (t : ℕ) : BitVec 16 := (soundModule.run reset w t).q

/-- The clocks of the serial link. -/
abbrev bclk (t : ℕ) : Bool := (w t).bclk

/-- The channel clock. -/
abbrev daclrc (t : ℕ) : Bool := (w t).daclrc

/-- The frame that begins in cycle `a` carries the sample present when it has entered `e1`, in cycle
`a + 2`. In this cycle `ready` is pulsed and, if `enable = '1'`, the phase goes on; in the other cycles of
the frame neither happens. -/
structure Trama (a : ℕ) : Prop where
  lleva : Carries (bclk w) (daclrc w) (fun t => (salida w t).dacDat) (salida w (a + 2)).sample a
  ready : (salida w (a + 2)).ready = true
  avanza : fase w (a + 3) =
    if (w (a + 2)).enable = true then SinDDS.delta (w (a + 2)).key + fase w (a + 2) else fase w (a + 2)
  resto : ∀ t, Last (daclrc w) a t → t ≠ a + 1 →
    (salida w (t + 1)).ready = false ∧ fase w (t + 2) = fase w (t + 1)

end Frames

variable {w : ℕ → In}

/-- The inputs of `au_out` in a run. -/
def entradas (w : ℕ → In) (t : ℕ) : AuOut.In := puertosAu (soundModule.run reset w t) (w t)

/-- In a run of `SoundModule`, `au_out` runs on its inputs. -/
lemma run_auOut (t : ℕ) :
    (soundModule.run reset w t).auOut = AuOut.auOut.run AuOut.reset (entradas w) t := by
  induction t with
  | zero => rfl
  | succ t ih =>
    rw [Machine.run_succ, Machine.run_succ, ← ih]
    rfl

/-- The outputs of `SoundModule` are those of `au_out`. -/
lemma salida_auOut (t : ℕ) :
    (salida w t).dacDat = (AuOut.auOut.wave AuOut.reset (entradas w) t).dacDat ∧
      (salida w t).ready = (AuOut.auOut.wave AuOut.reset (entradas w) t).ready := by
  rw [Machine.wave, ← run_auOut]
  exact ⟨rfl, rfl⟩

/-- The phase goes on with `ready`. -/
lemma fase_succ (t : ℕ) : fase w (t + 1) =
    if (salida w t).ready = true ∧ (w t).enable = true then SinDDS.delta (w t).key + fase w t
    else fase w t := by
  have ld : SinDDS.ld (puertosDDS (soundModule.run reset w t) (w t)) =
      decide ((salida w t).ready = true ∧ (w t).enable = true) := rfl
  change (if SinDDS.ld (puertosDDS (soundModule.run reset w t) (w t)) = true then _ else _) = _
  simp only [ld, decide_eq_true_eq]
  rfl

/-- Every frame carries one sample, in both channels, and takes one step of the phase. -/
theorem soundModule_frames (c : Clocks (bclk w) (daclrc w)) {a : ℕ} (begins : Begins (daclrc w) a) :
    Trama w a := by
  have now : Last (daclrc w) a (a + 1) := ⟨begins, Nat.lt_succ_self a, fun x lo hi => by omega⟩
  have ready {t : ℕ} (last : Last (daclrc w) a t) : (salida w (t + 1)).ready = true ↔ t = a + 1 := by
    rw [(salida_auOut (t + 1)).2]
    exact AuOut.auOut_ready (w := entradas w) c last
  refine ⟨fun t last rise short => ?_, (ready now).mpr rfl, ?_, fun t last ne => ?_⟩
  · obtain ⟨before, after⟩ := AuOut.auOut_carries (w := entradas w) c a t last rise short
    exact ⟨(salida_auOut t).1.trans before, (salida_auOut (t + 1)).1.trans after⟩
  · rw [fase_succ, (ready now).mpr rfl]
    simp only [true_and]
  · have quiet : (salida w (t + 1)).ready = false := Bool.eq_false_iff.mpr fun h => ne ((ready last).mp h)
    exact ⟨quiet, by rw [fase_succ, quiet]; rfl⟩

/-- The clocks of a master with 17 bits a channel and 8 cycles a bit. -/
def maestro (t : ℕ) : In where
  daclrc := t / 136 % 2 = 1
  bclk := 4 ≤ t % 8
  enable := true
  vel := 100#7
  key := 60#7

/-- The channel clock of `maestro` changes every 136 cycles. -/
lemma maestro_changes (t : ℕ) : Changes (daclrc maestro) t ↔ t % 136 = 135 := by
  simp only [Changes, daclrc, maestro, ne_eq, decide_eq_decide]
  omega

/-- The bit clock of `maestro` rises every eight cycles. -/
lemma maestro_rises (t : ℕ) : Rises (bclk maestro) t ↔ t % 8 = 3 := by
  simp only [Rises, bclk, maestro, decide_eq_false_iff_not, decide_eq_true_eq]
  omega

/-- The bits that `maestro` has sent of a channel. -/
lemma maestro_bits (t : ℕ) : bits (bclk maestro) (daclrc maestro) t = (t % 136 + 4) / 8 := by
  induction t with
  | zero => rfl
  | succ t ih =>
    by_cases change : Changes (daclrc maestro) t
    · rw [bits_changes change]
      rw [maestro_changes] at change
      omega
    · by_cases rise : Rises (bclk maestro) t
      · rw [bits_rises change rise, ih]
        rw [maestro_changes] at change
        rw [maestro_rises] at rise
        omega
      · rw [bits_keeps change rise, ih]
        rw [maestro_changes] at change
        rw [maestro_rises] at rise
        omega

/-- The clocks of `maestro` are legal. -/
lemma maestro_clocks : Clocks (bclk maestro) (daclrc maestro) := by
  refine ⟨fun t h k hk => ?_, fun t h => ?_, fun s t lt hs ht => ?_⟩
  · simp only [bclk, maestro, ne_eq, decide_eq_decide] at h ⊢
    omega
  · rw [maestro_changes] at h
    exact ⟨decide_eq_true (by omega), decide_eq_false (by omega)⟩
  · rw [maestro_changes] at ht
    rw [maestro_bits]
    omega

/-- The second frame of that master, whose word is the first one that is not 0. -/
theorem soundModule_frames_example : Trama maestro 407 ∧ (salida maestro (407 + 2)).sample = 4994#16 :=
  ⟨soundModule_frames maestro_clocks ⟨rfl, rfl⟩, by decide +kernel⟩

end SoundModule
