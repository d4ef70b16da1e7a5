import TecMidi.Midi.Message
import TecMidi.Sync.Delivery

/-!
# `modulo2`: the note decoder

The control unit `UCmodulo2` and the datapath `modulo2`, process by process, in the manner of
`Modulo1.lean`. `reset = '1'` does not clear `code_reg`, so `reset` takes its content as an argument.
-/

namespace UCmodulo2

/-- The states of the control unit. -/
inductive Estado where
  | e0 | e1 | e2 | e3 | e4 | e5 | e6 | e7 | e8 | e9 | e10
deriving DecidableEq, Repr

/-- The next state: `e1`, `e3` and `e5` load a status, a key and a velocity, `e7` and `e8` wait for `ack`, `e9`
for the next byte. -/
def es (ep : Estado) (ready tipo1 c4 ack code7 : Bool) : Estado :=
  match ep with
  | .e0 => if ready = true then .e1 else .e0
  | .e1 => .e10
  | .e10 => if tipo1 = true then .e2 else .e0
  | .e2 => if ready = true then .e3 else .e2
  | .e3 => .e4
  | .e4 => if ready = true then .e5 else .e4
  | .e5 => .e6
  | .e6 => if c4 = false then .e7 else .e8
  | .e7 => if ack = false then .e7 else .e9
  | .e8 => if ack = false then .e8 else .e9
  | .e9 =>
    if ready = false then .e9
    else if code7 = false ∧ ready = true then .e3
    else .e1

/-- Loads the status. -/
def ldCode (ep : Estado) : Bool := ep = .e1

/-- Loads the key. -/
def ldKey (ep : Estado) : Bool := ep = .e3

/-- Loads the velocity. -/
def ldVel (ep : Estado) : Bool := ep = .e5

/-- Pulses a Note On. -/
def nOn (ep : Estado) : Bool := ep = .e8

/-- Pulses a Note Off. -/
def nOff (ep : Estado) : Bool := ep = .e7

end UCmodulo2

namespace Modulo2
open Sync UCmodulo2

/-- The registers, and the state of the control unit. -/
structure St where
  ep : Estado
  codeReg : BitVec 4
  key : BitVec 7
  vel : BitVec 7
deriving DecidableEq, Repr

/-- The byte that `modulo1` offers, and the acknowledgement. -/
structure In where
  ready : Bool
  ack : Bool
  code : BitVec 8
deriving DecidableEq, Repr

/-- The note and its pulses. -/
structure Out where
  nOn : Bool
  nOff : Bool
  key : BitVec 7
  vel : BitVec 7
deriving DecidableEq, Repr

/-- The status loaded is that of a note. -/
def St.tipo1 (s : St) : Bool := s.codeReg.extractLsb' 1 3 = 0b100#3

/-- The status loaded is that of a Note On. -/
def St.c4 (s : St) : Bool := s.codeReg.getLsbD 0

/-- The byte is a status byte. -/
def In.code7 (i : In) : Bool := i.code.getLsbD 7

/-- The state forced by `reset = '1'`, which leaves `code_reg` as it is. -/
def reset (codeReg : BitVec 4) : St where
  ep := .e0
  codeReg := codeReg
  key := 0#7
  vel := 0#7

/-- A rising edge of the clock. -/
def clk (s : St) (i : In) : St where
  ep := es s.ep i.ready s.tipo1 s.c4 i.ack i.code7
  codeReg := if ldCode s.ep = true then i.code.extractLsb' 4 4 else s.codeReg
  key := if ldKey s.ep = true then i.code.extractLsb' 0 7 else s.key
  vel := if ldVel s.ep = true then i.code.extractLsb' 0 7 else s.vel

/-- `modulo2` on its clock. -/
def modulo2 : Machine St In Out where
  next := clk
  out s _ := ⟨nOn s.ep, nOff s.ep, s.key, s.vel⟩

/-- The byte that arrives in a cycle, if any. -/
def In.byte? (i : In) : Option Midi.Byte := pulse i.ready i.code

/-- The event pulsed in a cycle, if any. -/
def Out.event? (o : Out) : Option Midi.NoteEvent :=
  if o.nOn = true then some ⟨true, o.key, o.vel⟩
  else if o.nOff = true then some ⟨false, o.key, o.vel⟩
  else none

/-- The outputs `key` and `vel` are those of the event. -/
lemma Out.event?_codes {o : Out} {e : Midi.NoteEvent} (h : o.event? = some e) :
    o.key = e.key ∧ o.vel = e.vel := by
  obtain ⟨on, off, k, v⟩ := o
  cases on with
  | true =>
    cases h
    exact ⟨rfl, rfl⟩
  | false =>
    cases off with
    | true =>
      cases h
      exact ⟨rfl, rfl⟩
    | false => cases h

variable (r : BitVec 4) (k v : BitVec 7) (i : In)

/-! ### One edge in each state -/

/-- The edge in `e0` waits for a byte. -/
lemma clk_e0 : clk ⟨.e0, r, k, v⟩ i = ⟨if i.ready = true then .e1 else .e0, r, k, v⟩ := rfl

/-- The edge in `e1` loads the high half of the status. -/
lemma clk_e1 : clk ⟨.e1, r, k, v⟩ i = ⟨.e10, i.code.extractLsb' 4 4, k, v⟩ := rfl

/-- The edge in `e10` looks at it. -/
lemma clk_e10 :
    clk ⟨.e10, r, k, v⟩ i = ⟨if St.tipo1 ⟨.e10, r, k, v⟩ = true then .e2 else .e0, r, k, v⟩ := rfl

/-- The edge in `e2` waits for the key. -/
lemma clk_e2 : clk ⟨.e2, r, k, v⟩ i = ⟨if i.ready = true then .e3 else .e2, r, k, v⟩ := rfl

/-- The edge in `e3` loads it. -/
lemma clk_e3 : clk ⟨.e3, r, k, v⟩ i = ⟨.e4, r, Midi.dataBits i.code, v⟩ := rfl

/-- The edge in `e4` waits for the velocity. -/
lemma clk_e4 : clk ⟨.e4, r, k, v⟩ i = ⟨if i.ready = true then .e5 else .e4, r, k, v⟩ := rfl

/-- The edge in `e5` loads it. -/
lemma clk_e5 : clk ⟨.e5, r, k, v⟩ i = ⟨.e6, r, k, Midi.dataBits i.code⟩ := rfl

/-- The edge in `e6` tells Note On from Note Off. -/
lemma clk_e6 :
    clk ⟨.e6, r, k, v⟩ i = ⟨if r.getLsbD 0 = false then .e7 else .e8, r, k, v⟩ := rfl

/-- The edge in `e7` ends the pulse of a Note Off that is acknowledged. -/
lemma clk_e7 (ack : i.ack = true) : clk ⟨.e7, r, k, v⟩ i = ⟨.e9, r, k, v⟩ := by
  simp [clk, es, ldCode, ldKey, ldVel, ack]

/-- The edge in `e8` ends that of a Note On. -/
lemma clk_e8 (ack : i.ack = true) : clk ⟨.e8, r, k, v⟩ i = ⟨.e9, r, k, v⟩ := by
  simp [clk, es, ldCode, ldKey, ldVel, ack]

/-- The edge in `e9` waits for a key or a status. -/
lemma clk_e9 :
    clk ⟨.e9, r, k, v⟩ i =
      ⟨if i.ready = false then .e9 else if i.code7 = false ∧ i.ready = true then .e3 else .e1,
        r, k, v⟩ := rfl

/-- `code_reg` holds all that tells a note status from other bytes. -/
lemma tipo1_codeReg (b : Midi.Byte) :
    St.tipo1 ⟨.e10, b.extractLsb' 4 4, k, v⟩ = Midi.isNote b := by
  have slice : (b.extractLsb' 4 4).extractLsb' 1 3 = b.extractLsb' 5 3 := by
    revert b; decide
  simp [St.tipo1, Midi.isNote, slice, beq_eq_decide]

/-- A pulse is on one of the two outputs, and with `ack` high it lasts one cycle. -/
lemma event?_once (s : St) (i j : In) (ack : i.ack = true) :
    ((modulo2.out s i).nOn = false ∨ (modulo2.out s i).nOff = false) ∧
      ((modulo2.out s i).event? ≠ none → (modulo2.out (clk s i) j).event? = none) := by
  obtain ⟨ep, r, k, v⟩ := s
  cases ep with
  | e7 => exact ⟨.inl rfl, fun _ => by rw [clk_e7 r k v i ack]; rfl⟩
  | e8 => exact ⟨.inr rfl, fun _ => by rw [clk_e8 r k v i ack]; rfl⟩
  | _ => exact ⟨.inl rfl, fun h => absurd rfl h⟩

end Modulo2
