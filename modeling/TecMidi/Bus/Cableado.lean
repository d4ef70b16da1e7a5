import TecMidi.Soft.Irqhandler

/-!
# The wiring of `codificador`

There are two versions of `avalon_RxDecMIDI` with the same processes and the same `codificador`; they differ
in the bits of `key_code` and `vel_code` to which its outputs are connected. The one that is listed in
`RxDecMIDI_hw.tcl` connects bits 7 to 1 (`actual`), and the one in `new` bits 6 to 0 (`nueva`). The other bit
is not driven.

`Cableado` is what the system relies on: different keys have different codes.
-/

namespace AvalonRx
open Irqhandler

/-- The codes that the registers see for a key and for a velocity. -/
structure Cableado where
  keyCode : BitVec 7 → BitVec 8
  velCode : BitVec 7 → BitVec 8
  inj : keyCode.Injective

namespace Cableado

/-- The undriven bits are the lowest ones. -/
def actual (u : Undriven) : Cableado where
  keyCode k := k ++ BitVec.ofBool u.key
  velCode v := v ++ BitVec.ofBool u.vel
  inj k k' eq := by
    have back := congrArg (BitVec.extractLsb' 1 7) eq
    simpa only [BitVec.extractLsb'_append_eq_left] using back

/-- The undriven bits are the highest ones. -/
def nueva (u : Undriven) : Cableado where
  keyCode k := BitVec.ofBool u.key ++ k
  velCode v := BitVec.ofBool u.vel ++ v
  inj k k' eq := by
    have back := congrArg (BitVec.extractLsb' 0 7) eq
    simpa only [BitVec.extractLsb'_append_eq_right] using back

variable (C : Cableado)

/-- The port map of `codificador`. -/
def puertos (o : Modulo2.Out) : Pulso := ⟨o.nOn, o.nOff, C.keyCode o.key, C.velCode o.vel⟩

/-- The event that the registers latch for a note. -/
def evento (e : Midi.NoteEvent) : Evento := ⟨e.on, C.keyCode e.key, C.velCode e.vel⟩

/-- The status and the data of a note. -/
def aviso (e : Midi.NoteEvent) : BitVec 32 × BitVec 32 := ((C.evento e).estado, (C.evento e).dato)

/-- The registers take a note of `codificador` as its event. -/
lemma clk_puertos (r : Regs) (o : Modulo2.Out) (b : Bus) :
    r.clk (C.puertos o) b = r.clk (pulsoDe (o.event?.map C.evento)) b := by
  obtain ⟨on, off, k, v⟩ := o
  cases on with
  | true => rfl
  | false =>
    cases off with
    | true => rfl
    | false => rfl

end Cableado
end AvalonRx
