import TecMidi.Bus.AvalonRx

/-!
# `avalon_SoundMIDI`: the codec on the bus

The data register of `avalon_SoundMIDI`, which the processor writes, and the slices of it that are
connected to `SoundModule`.
-/

/-- The register `RegDatos` of `avalon_SoundMIDI`. -/
structure AvalonSound where
  regDatos : BitVec 32
deriving DecidableEq, Repr

namespace AvalonSound

/-- The address of the data register. -/
def regDatosAddress : BitVec 2 := 0b01#2

/-- The register that `clr_n = '0'` forces. -/
def reset : AvalonSound := ⟨0#32⟩

/-- A rising edge of the clock takes what is written to the register. -/
def clk (s : AvalonSound) (b : Bus) : AvalonSound :=
  if b.writes regDatosAddress = true then ⟨b.wrData⟩ else s

variable (s : AvalonSound)

/-- The key code is the low byte of the register. -/
def keyCode : BitVec 8 := s.regDatos.extractLsb' 0 8

/-- The velocity code is the byte above it. -/
def velCode : BitVec 8 := s.regDatos.extractLsb' 8 8

/-- The enable bit is bit 16. -/
def enable : Bool := s.regDatos.getLsbD 16

/-- The port map of `SoundModule`: the low seven bits of each code. -/
def key : BitVec 7 := s.keyCode.extractLsb' 0 7

/-- The velocity that `SoundModule` receives is the low seven bits of its code. -/
def vel : BitVec 7 := s.velCode.extractLsb' 0 7

/-- The word that the software writes for a Note On of codes `k` and `v`. -/
lemma on_word (k v : BitVec 8) :
    let s : AvalonSound := ⟨(0x0000#16 ++ (v ++ k)) ||| 0x10000#32⟩
    s.keyCode = k ∧ s.velCode = v ∧ s.enable = true := by
  obtain ⟨key, vel⟩ := AvalonRx.slices v k
  refine ⟨?_, ?_, ?_⟩
  · rw [keyCode, BitVec.extractLsb'_or, key]
    exact BitVec.or_zero
  · rw [velCode, BitVec.extractLsb'_or, vel]
    exact BitVec.or_zero
  · rw [enable, BitVec.getLsbD_or]
    exact Bool.or_true _

end AvalonSound
