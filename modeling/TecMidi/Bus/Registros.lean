import TecMidi.Bus.AvalonRx
import TecMidi.Sync.Register

/-!
# The registers of `avalon_RxDecMIDI` in every run

Whatever the line carries and whatever the bus does: `RegEstado` takes four values, `RegDatos` holds the
codes of the latest note pulse, `RegControl` the word written in the previous cycle, and the interrupt stays
from a pulse until a write to `RegControl` in a cycle without one. That a pulse comes with the last two bytes
received is read off the decoder: it awaits a velocity only after a byte that it has taken as a key.
-/

namespace AvalonRx
open Sync

namespace Regs

/-- `RegEstado` is 0, or has the interrupt bit and at least one of the event bits. -/
def EstadoOk (x : BitVec 32) : Prop := x = 0#32 ∨ x = 0b011#32 ∨ x = 0b101#32 ∨ x = 0b111#32

/-- Every edge leads from one of these values to another one. -/
lemma EstadoOk.clk {s : Regs} (ok : EstadoOk s.regEstado) (p : Pulso) (b : Bus) :
    EstadoOk (s.clk p b).regEstado := by
  obtain ⟨d, e, c⟩ := s
  simp only [Regs.clk]
  split
  · rcases ok with rfl | rfl | rfl | rfl <;> simp [EstadoOk]
  · split
    · rcases ok with rfl | rfl | rfl | rfl <;> simp [EstadoOk]
    · split
      · exact .inl rfl
      · exact ok

/-- Bits 3 and up are 0, and the interrupt bit is set with the event bits. -/
lemma EstadoOk.bits {x : BitVec 32} (ok : EstadoOk x) :
    (∀ i, 3 ≤ i → x.getLsbD i = false) ∧ x.getLsbD 0 = (x.getLsbD 1 || x.getLsbD 2) := by
  have small : x.toNat < 8 := by rcases ok with rfl | rfl | rfl | rfl <;> decide
  refine ⟨fun i ge => ?_, by rcases ok with rfl | rfl | rfl | rfl <;> rfl⟩
  have pow : 8 ≤ 2 ^ i := Nat.pow_le_pow_right (by omega : 0 < 2) ge
  exact Nat.testBit_lt_two_pow (by omega)

end Regs

/-- A note pulse is on one of the two outputs. -/
def Pulso.nota (p : Pulso) : Prop := p.nOn = true ∨ p.nOff = true

/-- A note pulse can be seen in its outputs. -/
instance (p : Pulso) : Decidable p.nota := inferInstanceAs (Decidable (_ ∨ _))

namespace Regs

/-- `RegDatos` takes the codes of a note pulse and keeps them otherwise. -/
lemma regDatos_clk (s : Regs) (p : Pulso) (b : Bus) :
    (p.nota → (s.clk p b).regDatos = 0x0000#16 ++ (p.velCode ++ p.keyCode)) ∧
      (¬ p.nota → (s.clk p b).regDatos = s.regDatos) :=
  ⟨fun nota => if_pos nota, fun quiet => if_neg quiet⟩

/-- The interrupt bit: a note sets it, a write to `RegControl` clears it otherwise. -/
lemma irq_clk (s : Regs) (p : Pulso) (b : Bus) :
    (s.clk p b).irq = true ↔ p.nota ∨ s.irq = true ∧ ¬ b.writes regControlAddress = true := by
  obtain ⟨d, e, c⟩ := s
  obtain ⟨on, off, k, v⟩ := p
  cases on with
  | true => simp [irq, Regs.clk, Pulso.nota]
  | false =>
    cases off with
    | true => simp [irq, Regs.clk, Pulso.nota]
    | false =>
      by_cases write : b.writes regControlAddress = true
      · simp [irq, Regs.clk, Pulso.nota, write]
      · simp [irq, Regs.clk, Pulso.nota, write]

/-- Accesses other than writes to `RegControl` are no accesses for `RegEstado`, and none is one for
`RegDatos`. -/
lemma clk_idle (s : Regs) (p : Pulso) {b : Bus} (other : b.writes regControlAddress = false) :
    (s.clk p b).regEstado = (s.clk p .idle).regEstado ∧ (s.clk p b).regDatos = (s.clk p .idle).regDatos := by
  refine ⟨?_, rfl⟩
  have none_ : Bus.idle.writes regControlAddress = false := rfl
  simp only [Regs.clk, other, none_]

end Regs

section Runs

variable (u : Undriven) (r : BitVec 4) (w : ℕ → In)

/-- The registers and the note pulse in a cycle of the run from reset. -/
abbrev regs (t : ℕ) : Regs := ((avalonRx u).run (reset r) w t).regs

/-- The note pulse of a cycle. -/
abbrev nota (t : ℕ) : Pulso := pulso u ((avalonRx u).run (reset r) w t) (w t).rxMidi

/-- The line. -/
abbrev linea (t : ℕ) : Bool := (w t).rxMidi

/-- Whatever the bus does, `codificador` runs on the line alone. -/
lemma run_codificador (t : ℕ) :
    ((avalonRx u).run (reset r) w t).codificador =
      Codificador.codificador.run (Codificador.reset r) (linea w) t := by
  induction t with
  | zero => rfl
  | succ t ih =>
    rw [Machine.run_succ, Machine.run_succ, ← ih]
    rfl

/-- The note pulse of a cycle is that of `codificador` on the line. -/
lemma nota_wave (t : ℕ) :
    nota u r w t = puertos u (Codificador.codificador.wave (Codificador.reset r) (linea w) t) := by
  rw [nota, pulso, run_codificador]
  rfl

/-- There is a note pulse when `codificador` reports a note. -/
lemma nota_event (t : ℕ) :
    (nota u r w t).nota ↔ Codificador.events r (linea w) t ≠ none := by
  rw [nota_wave, Codificador.events]
  generalize Codificador.codificador.wave (Codificador.reset r) (linea w) t = o
  obtain ⟨on, off, k, v⟩ := o
  cases on <;> cases off <;> simp [Pulso.nota, puertos, Modulo2.Out.event?]

/-- `RegDatos` is a register loaded by the note pulses. -/
lemma latches : Latches (fun t => (regs u r w t).regDatos) (fun t => (nota u r w t).nota)
    (fun t => 0x0000#16 ++ ((nota u r w t).velCode ++ (nota u r w t).keyCode)) :=
  fun t => Regs.regDatos_clk (regs u r w t) (nota u r w t) (w t).bus

/-- The interrupt is a flag that the note pulses set and the writes to `RegControl` clear. -/
lemma flag : Flag (fun t => (regs u r w t).irq = true) (fun t => (nota u r w t).nota)
    (fun t => (w t).bus.writes regControlAddress = true) where
  zero := by
    intro up
    have down : Regs.reset.irq = false := by decide
    exact Bool.false_ne_true (down.symm.trans up)
  step t := Regs.irq_clk (regs u r w t) (nota u r w t) (w t).bus

/-- The invariant of `RegEstado` in every run. -/
lemma estado_ok (t : ℕ) : Regs.EstadoOk (regs u r w t).regEstado :=
  Machine.run_invariant (P := fun s : St => Regs.EstadoOk s.regs.regEstado) (.inl rfl)
    (fun s i ok => ok.clk (pulso u s i.rxMidi) i.bus) t

/-- The registers in every state reached from reset, on every line and with every bus traffic. -/
theorem avalonRx_registros (t : ℕ) :
    -- `RegEstado`
    ((∀ i, 3 ≤ i → (regs u r w t).regEstado.getLsbD i = false) ∧
      (regs u r w t).regEstado.getLsbD 0 =
        ((regs u r w t).regEstado.getLsbD 1 || (regs u r w t).regEstado.getLsbD 2)) ∧
    -- the pulses
    (((nota u r w t).nOn = false ∨ (nota u r w t).nOff = false) ∧
      ((nota u r w t).nota → ¬ (nota u r w (t + 1)).nota)) ∧
    -- `RegDatos`
    ((∀ v < t, ¬ (nota u r w v).nota) → (regs u r w t).regDatos = 0#32) ∧
    (∀ x < t, (nota u r w x).nota → (∀ v, x < v → v < t → ¬ (nota u r w v).nota) →
      (regs u r w t).regDatos = 0x0000#16 ++ ((nota u r w x).velCode ++ (nota u r w x).keyCode)) ∧
    ((nota u r w t).nota → ∃ bs k v, log (Codificador.bytes (linea w)) t = bs ++ [k, v] ∧
      (Codificador.codificador.wave (Codificador.reset r) (linea w) t).key = Midi.dataBits k ∧
      (Codificador.codificador.wave (Codificador.reset r) (linea w) t).vel = Midi.dataBits v) ∧
    -- `RegControl`
    ((regs u r w 0).regControl = 0#32 ∧ (regs u r w (t + 1)).regControl =
      if (w t).bus.writes regControlAddress = true then (w t).bus.wrData else 0#32) ∧
    -- the interrupt
    (((avalonRx u).wave (reset r) w t).irq = true ↔ ∃ x < t, (nota u r w x).nota ∧
      ∀ v, x < v → v < t → (w v).bus.writes regControlAddress = true → (nota u r w v).nota) ∧
    -- the other accesses
    ∀ (s : Regs) (p : Pulso) (b : Bus), b.writes regControlAddress = false →
      (s.clk p b).regEstado = (s.clk p .idle).regEstado ∧
        (s.clk p b).regDatos = (s.clk p .idle).regDatos := by
  obtain ⟨one, once⟩ := Codificador.codificador_pulses (Codificador.reset r) (linea w) t
  refine ⟨(estado_ok u r w t).bits, ⟨?_, ?_⟩, ?_, ?_, ?_, ⟨rfl, rfl⟩, (flag u r w).up_iff t,
    fun s p b other => s.clk_idle p other⟩
  · rw [nota_wave]
    exact one
  · intro now next
    exact (nota_event u r w (t + 1)).mp next (once ((nota_event u r w t).mp now))
  · intro quiet
    exact (latches u r w).keeps (Nat.zero_le t) fun v _ lt => quiet v lt
  · intro x lt pulsed quiet
    exact (latches u r w).latest lt pulsed quiet
  · intro now
    cases ev : Codificador.events r (linea w) t with
    | none => exact absurd ev ((nota_event u r w t).mp now)
    | some e =>
      obtain ⟨bs, k, v, received, key, vel⟩ := Codificador.codificador_datos ev
      obtain ⟨key', vel'⟩ := Modulo2.Out.event?_codes ev
      exact ⟨bs, k, v, received, key'.trans key.symm, vel'.trans vel.symm⟩

end Runs
end AvalonRx
