import TecMidi.Rx.Codificador

/-!
# `avalon_RxDecMIDI`: the receiver on the bus

The three registers of `avalon_RxDecMIDI`, process by process (`Regs`), and the whole device, which
drives them from `codificador`. In the port map of `codificador` the seven bits of `key` and `vel` are
connected to bits 7 to 1 of `key_code` and `vel_code`; bit 0 of these is not driven, and `Undriven` is
the fixed value it takes.
-/

/-- The signals of a slave with a two-bit address in a cycle of the bus. -/
structure Bus where
  cs : Bool
  rdN : Bool
  wrN : Bool
  addr : BitVec 2
  wrData : BitVec 32
deriving DecidableEq, Repr

namespace Bus

/-- A cycle without an access. -/
def idle : Bus := ⟨false, true, true, 0#2, 0#32⟩

/-- A read of the register at `addr`. -/
def read (addr : BitVec 2) : Bus := ⟨true, false, true, addr, 0#32⟩

/-- A write to the register at `addr`. -/
def write (addr : BitVec 2) (data : BitVec 32) : Bus := ⟨true, true, false, addr, data⟩

/-- The condition under which a slave takes a write to the register at `addr`. -/
def writes (b : Bus) (addr : BitVec 2) : Bool := b.cs = true ∧ b.addr = addr ∧ b.wrN = false

end Bus

namespace AvalonRx
open Sync

/-- The address of `RegEstado`. -/
def regEstadoAddress : BitVec 2 := 0b00#2

/-- The address of `RegDatos`. -/
def regDatosAddress : BitVec 2 := 0b01#2

/-- The address of `RegControl`. -/
def regControlAddress : BitVec 2 := 0b10#2

/-- The three registers. -/
structure Regs where
  regDatos : BitVec 32
  regEstado : BitVec 32
  regControl : BitVec 32
deriving DecidableEq, Repr

/-- A note pulse of the decoder, with its codes. -/
structure Pulso where
  nOn : Bool
  nOff : Bool
  keyCode : BitVec 8
  velCode : BitVec 8
deriving DecidableEq, Repr

namespace Regs

/-- The registers that `clr_n = '0'` forces. -/
def reset : Regs := ⟨0#32, 0#32, 0#32⟩

/-- The read data: the register selected by the address, whatever the other signals. -/
def rdData (s : Regs) (addr : BitVec 2) : BitVec 32 :=
  if addr = regControlAddress then s.regControl
  else if addr = regDatosAddress then s.regDatos
  else s.regEstado

/-- The interrupt request: bit 0 of `RegEstado`. -/
def irq (s : Regs) : Bool := s.regEstado.getLsbD 0

/-- A rising edge of the clock, with the note pulse and the access of the cycle. -/
def clk (s : Regs) (p : Pulso) (b : Bus) : Regs where
  regEstado :=
    -- a Note On sets bits 2 and 0, a Note Off bits 1 and 0
    if p.nOn = true then s.regEstado ||| 0b101#32
    else if p.nOff = true then s.regEstado ||| 0b011#32
    else if b.writes regControlAddress = true then 0#32
    else s.regEstado
  regDatos :=
    if p.nOn = true ∨ p.nOff = true then 0x0000#16 ++ (p.velCode ++ p.keyCode) else s.regDatos
  regControl := if b.writes regControlAddress = true then b.wrData else 0#32

end Regs

/-- The value of the undriven bits 0 of `key_code` and `vel_code`. -/
structure Undriven where
  key : Bool
  vel : Bool
deriving DecidableEq, Repr

/-- The port map of `codificador`. -/
def puertos (u : Undriven) (o : Modulo2.Out) : Pulso where
  nOn := o.nOn
  nOff := o.nOff
  keyCode := o.key ++ BitVec.ofBool u.key
  velCode := o.vel ++ BitVec.ofBool u.vel

/-- The receiver and the registers. -/
structure St where
  codificador : Modulo1.St × Modulo2.St
  regs : Regs
deriving DecidableEq, Repr

/-- The bus and the MIDI line. -/
structure In where
  bus : Bus
  rxMidi : Bool
deriving DecidableEq, Repr

/-- The interrupt request and the read data. -/
structure Out where
  irq : Bool
  rdData : BitVec 32
deriving DecidableEq, Repr

/-- The state forced by `clr_n = '0'`; `code_reg` keeps its content. -/
def reset (codeReg : BitVec 4) : St := ⟨Codificador.reset codeReg, .reset⟩

variable (u : Undriven)

/-- The note pulse of a cycle. -/
def pulso (s : St) (rxMidi : Bool) : Pulso := puertos u (Codificador.codificador.out s.codificador rxMidi)

/-- `avalon_RxDecMIDI`: `codificador` and the registers on one clock. -/
def avalonRx : Machine St In Out where
  next s i := ⟨Codificador.codificador.next s.codificador i.rxMidi,
    s.regs.clk (pulso u s i.rxMidi) i.bus⟩
  out s i := ⟨s.regs.irq, s.regs.rdData i.bus.addr⟩

/-- The content of `RegDatos` after a note. -/
def datos (e : Midi.NoteEvent) : BitVec 32 :=
  0x0000#16 ++ ((e.vel ++ BitVec.ofBool u.vel) ++ (e.key ++ BitVec.ofBool u.key))

/-- The codes are where they have been put. -/
lemma slices (v k : BitVec 8) :
    (0x0000#16 ++ (v ++ k)).extractLsb' 0 8 = k ∧ (0x0000#16 ++ (v ++ k)).extractLsb' 8 8 = v := by
  constructor
  · rw [BitVec.extractLsb'_append_eq_of_add_le (by decide), BitVec.extractLsb'_append_eq_right]
  · rw [BitVec.extractLsb'_append_eq_of_add_le (by decide), BitVec.extractLsb'_append_eq_left]

/-- The seven bits of a code are one bit too high, except for the code 0. -/
lemma code_iff (k : BitVec 7) (b : Bool) : k ++ BitVec.ofBool b = 0#1 ++ k ↔ k = 0#7 ∧ b = false := by
  revert k b
  decide

/-- `RegDatos` has its documented format only after the note of key 0 and velocity 0. -/
lemma datos_iff (e : Midi.NoteEvent) :
    datos u e = 0x0000#16 ++ ((0#1 ++ e.vel) ++ (0#1 ++ e.key)) ↔
      e.key = 0#7 ∧ e.vel = 0#7 ∧ u = ⟨false, false⟩ := by
  obtain ⟨on, k, v⟩ := e
  obtain ⟨bk, bv⟩ := u
  obtain ⟨keyCode, velCode⟩ := slices (v ++ BitVec.ofBool bv) (k ++ BitVec.ofBool bk)
  obtain ⟨key, vel⟩ := slices (0#1 ++ v) (0#1 ++ k)
  constructor
  · intro eq
    rw [datos] at eq
    rw [eq, key] at keyCode
    rw [eq, vel] at velCode
    obtain ⟨rfl, rfl⟩ := (code_iff k bk).mp keyCode.symm
    obtain ⟨rfl, rfl⟩ := (code_iff v bv).mp velCode.symm
    exact ⟨rfl, rfl, rfl⟩
  · rintro ⟨⟨⟩, ⟨⟩, ⟨⟩⟩
    rfl

/-- A note is latched whatever the access to the bus. -/
lemma regDatos_event {o : Modulo2.Out} {e : Midi.NoteEvent} (h : o.event? = some e) (s : Regs) (b : Bus) :
    (s.clk (puertos u o) b).regDatos = datos u e := by
  obtain ⟨on, off, k, v⟩ := o
  cases on with
  | true => cases h; rfl
  | false =>
    cases off with
    | true => cases h; rfl
    | false => cases h

/-- Without a note `RegDatos` is kept, whatever the access to the bus. -/
lemma regDatos_quiet {o : Modulo2.Out} (h : o.event? = none) (s : Regs) (b : Bus) :
    (s.clk (puertos u o) b).regDatos = s.regDatos := by
  obtain ⟨on, off, k, v⟩ := o
  cases on with
  | true => cases h
  | false =>
    cases off with
    | true => cases h
    | false => rfl

end AvalonRx
