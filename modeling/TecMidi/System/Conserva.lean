import TecMidi.Sync.Service
import TecMidi.System.Sistema

/-!
# What a note goes through

A note goes through three hands: the registers hold it until the handler has read it, the context holds it
until the loop has applied it, and neither holds more than one. `debe` is what they hold at a time, and
`Seguro` says which cycles lose nothing: a note comes when the status has been cleared, or with the
acknowledgement of a note of its kind, and the handler is entered when the loop is done with the context.

`Ciclo` lists what a cycle can do and `Inv.ciclo` is the step lemma over it: a safe cycle hands over what it
takes. So what has been pulsed has been applied or is still held (`conserva_run`).
-/

namespace Sistema

/-- The status and the data with which the loop goes into its note logic in a cycle. -/
def aplicado (s : St) (i : In) : Option (BitVec 32 × BitVec 32) :=
  if paso s i = some .testOn then some (s.main.ctx.estado, s.main.rDato) else none

end Sistema

namespace AvalonRx.Cableado
open Sync Sistema

variable (C : Cableado)

/-- The status and the data of the note pulsed in a cycle. -/
abbrev avisos (s : Sistema.St) (w : ℕ → Sistema.In) (t : ℕ) : Option (BitVec 32 × BitVec 32) :=
  (C.nota s w t).map C.aviso

/-- The status and the data applied in a cycle. -/
abbrev aplicados (s : Sistema.St) (w : ℕ → Sistema.In) (t : ℕ) : Option (BitVec 32 × BitVec 32) :=
  aplicado (C.en s w t) (w t)

end AvalonRx.Cableado

namespace Sistema
open Sync AvalonRx Irqhandler

variable (C : Cableado)

/-- The handler is entered in a cycle. -/
def Entra (s : St) (i : In) : Prop := i.turno = .irq ∧ s.pc = none ∧ s.rx.regs.irq = true

/-- What the registers, the handler and the loop still hold. -/
def debe (s : St) : List (BitVec 32 × BitVec 32) :=
  match s.pc with
  | some .rdEstado => [(s.rx.regs.regEstado, s.rx.regs.regDatos)]
  | some .rdDatos => [(s.main.ctx.estado, s.rx.regs.regDatos)]
  | some .rdControl1 | some .wrAck => Main.debe s.main
  | _ => Main.debe s.main ++ pendiente s.rx.regs

/-- A cycle that loses nothing. -/
structure Seguro (s : St) (i : In) : Prop where
  nota : ∀ e, C.sistema.out s i = some e → s.rx.regs.regEstado = 0#32 ∨
    (acceso s i = some .wrAck ∧ s.rx.regs.regEstado = (C.evento e).estado)
  entra : Entra s i → s.main.ctx.estado = 0#32 ∧ (s.main.pc = .clrDato → s.rx.regs.regDatos = 0#32)

/-- The accesses of the handler before it has acknowledged. -/
def pendienteAck : Option Acceso → Bool
  | some .rdEstado | some .rdDatos | some .rdControl1 | some .wrAck => true
  | _ => false

/-- The loop is where it loses nothing that the handler stores. -/
def Fuera (m : Main.St) (d : BitVec 32) : Prop := m.pc.atiende = false ∧ (m.pc = .clrDato → d = 0#32)

/-- What the states have in common as long as all cycles are safe. -/
structure Inv (s : St) : Prop where
  estado : s.rx.regs.regEstado = 0#32 ∨ ∃ on, s.rx.regs.regEstado = estadoDe on
  ack : pendienteAck s.pc = true → s.rx.regs.regEstado ≠ 0#32
  rdEstado : s.pc = some .rdEstado → s.main.ctx.estado = 0#32 ∧ Fuera s.main s.rx.regs.regDatos
  rdDatos : s.pc = some .rdDatos → s.main.ctx.estado ≠ 0#32 ∧ Fuera s.main s.rx.regs.regDatos
  main : Main.Inv s.main

/-- The cycles of the system: `a` is the access of the handler, `p` what the loop applies. -/
inductive Ciclo (s : St) (i : In) (ev : Option Evento) :
    Option Acceso → Option (BitVec 32 × BitVec 32) → Regs → Option Acceso → Main.St → Prop where
  | espera : (i.turno = .irq → s.pc = none ∧ s.rx.regs.irq = false) → (i.turno = .main → s.pc ≠ none) →
    Ciclo s i ev none none (s.rx.regs.clk (pulsoDe ev) .idle) s.pc s.main
  | entra : Entra s i →
    Ciclo s i ev none none (s.rx.regs.clk (pulsoDe ev) .idle) (some .rdEstado) s.main
  | acceso {a} : i.turno = .irq → s.pc = some a →
    Ciclo s i ev (some a) none (s.rx.regs.clk (pulsoDe ev) a.bus) a.sig
      { s.main with ctx := a.guarda (s.rx.regs.rdData a.bus.addr) s.main.ctx }
  | bucle : i.turno = .main → s.pc = none →
    Ciclo s i ev none (Main.main.out s.main .main).aplicado (s.rx.regs.clk (pulsoDe ev) .idle) none
      (Main.sigue s.main)

variable {C} {s : St} {i : In}

/-- Every cycle is one of them. -/
lemma ciclo (s : St) (i : In) :
    Ciclo s i ((C.sistema.out s i).map C.evento) (acceso s i) (aplicado s i)
      (C.sistema.next s i).rx.regs (C.sistema.next s i).pc (C.sistema.next s i).main := by
  have regs : (C.sistema.next s i).rx.regs =
      s.rx.regs.clk (pulsoDe ((C.sistema.out s i).map C.evento)) (busRx s i) := C.clk_puertos _ _ _
  rw [regs]
  obtain ⟨rx, pc, main, sonido⟩ := s
  obtain ⟨line, turno⟩ := i
  cases turno with
  | nada => exact .espera nofun nofun
  | irq =>
    cases pc with
    | some a => exact .acceso rfl rfl
    | none =>
      change Ciclo _ _ _ none none _ (if rx.regs.irq = true then some .rdEstado else none) main
      by_cases irq : rx.regs.irq = true
      · rw [if_pos irq]
        exact .entra ⟨rfl, rfl, irq⟩
      · rw [if_neg irq]
        exact .espera (fun _ => ⟨rfl, Bool.eq_false_iff.mpr irq⟩) nofun
  | main =>
    cases pc with
    | some a => exact .espera nofun nofun
    | none =>
      have same : aplicado ⟨rx, none, main, sonido⟩ ⟨line, .main⟩ =
          (Main.main.out main .main).aplicado := by
        simp [aplicado, paso, Main.main]
      rw [same]
      exact .bucle rfl rfl

/-! ## The registers -/

/-- Only the acknowledgement clears the status. -/
lemma clk_callado (r : Regs) {a : Acceso} (ne : a ≠ .wrAck) :
    (r.clk (pulsoDe none) a.bus).regEstado = r.regEstado ∧ (r.clk (pulsoDe none) a.bus).regDatos = r.regDatos := by
  cases a with
  | wrAck => exact absurd rfl ne
  | _ => exact ⟨rfl, rfl⟩

/-- Without a note only the acknowledgement changes what is pending. -/
lemma pendiente_callado (r : Regs) {a : Acceso} (ne : a ≠ .wrAck) :
    pendiente (r.clk (pulsoDe none) a.bus) = pendiente r :=
  pendiente_congr (clk_callado r ne).1 (clk_callado r ne).2

/-- A note that the registers take safely leaves its own status and data. -/
lemma regs_nota {e : Midi.NoteEvent} {r : Regs} (b : Bus)
    (h : r.regEstado = 0#32 ∨ r.regEstado = (C.evento e).estado) :
    (r.clk (pulsoDe (some (C.evento e))) b).regEstado = estadoDe e.on ∧
      pendiente (r.clk (pulsoDe (some (C.evento e))) b) = [C.aviso e] := by
  have estado : (r.clk (pulsoDe (some (C.evento e))) b).regEstado = estadoDe e.on := by
    rw [regEstado_some]
    rcases h with zero | same
    · rw [zero, BitVec.zero_or]
      rfl
    · rw [same, BitVec.or_self]
      rfl
  refine ⟨estado, ?_⟩
  rw [pendiente, if_pos (irq_estadoDe estado), estado, regDatos_some]
  rfl

/-! ## The loop -/

/-- The loop owes nothing when the context has been cleared. -/
lemma debe_clara {m : Main.St} (inv : Main.Inv m) (zero : m.ctx.estado = 0#32) : Main.debe m = [] := by
  obtain ⟨ctx, pc, rDato, nota⟩ := m
  cases pc with
  | printEstado | printDato | printControl1 | printControl2 | rdDato | testOn | clrEstado =>
    exact absurd zero (inv rfl)
  | _ => exact Main.enCtx_zero zero

/-- Outside of the part that handles an event, the loop owes the event in the context. -/
lemma debe_fuera {m : Main.St} (fuera : Fuera m m.ctx.dato) (ne : m.ctx.estado ≠ 0#32) :
    Main.debe m = [(m.ctx.estado, m.ctx.dato)] := by
  obtain ⟨ctx, pc, rDato, nota⟩ := m
  obtain ⟨no, zero⟩ := fuera
  cases pc with
  | printEstado | printDato | printControl1 | printControl2 | rdDato | testOn | clrEstado => cases no
  | clrDato =>
    have dato : ctx.dato = 0#32 := zero rfl
    change Main.enCtx { ctx with dato := 0#32 } = [(ctx.estado, ctx.dato)]
    rw [dato]
    exact Main.enCtx_ne (c := { ctx with dato := 0#32 }) ne
  | _ => exact Main.enCtx_ne ne

/-- What the loop owes does not depend on the rest of the context. -/
lemma debe_control (m : Main.St) (x y z : BitVec 32) :
    Main.debe { m with ctx := { m.ctx with estado2 := x, control1 := y, control2 := z } } = Main.debe m := by
  obtain ⟨ctx, pc, rDato, nota⟩ := m
  cases pc <;> rfl

/-! ## The steps -/

/-- The state after reset is such a one. -/
lemma inv_reset (codeReg : BitVec 4) (d p t : BitVec 32) : Inv (reset codeReg d p t) :=
  ⟨.inl rfl, nofun, nofun, nofun, Main.inv_inicial d p t⟩

/-- With the status cleared the handler is not running, or has acknowledged. -/
lemma Inv.debe_libre (inv : Inv s) (zero : s.rx.regs.regEstado = 0#32) :
    pendienteAck s.pc = false ∧ debe s = Main.debe s.main := by
  have no : pendienteAck s.pc = false := Bool.eq_false_iff.mpr fun yes => inv.ack yes zero
  refine ⟨no, ?_⟩
  obtain ⟨rx, pc, main, sonido⟩ := s
  have nil : Main.debe main ++ pendiente rx.regs = Main.debe main := by
    rw [pendiente_zero zero, List.append_nil]
  cases pc with
  | none => exact nil
  | some a =>
    cases a with
    | rdEstado | rdDatos | rdControl1 | wrAck => cases no
    | rdControl2 | rdEstado2 => exact nil

/-- While no access before the acknowledgement is due, the loop and the registers hold what there is. -/
lemma debe_ack {pc : Option Acceso} (no : pendienteAck pc = false) (h : s.pc = pc) :
    debe s = Main.debe s.main ++ pendiente s.rx.regs := by
  obtain ⟨rx, pc', main, sonido⟩ := s
  obtain rfl : pc' = pc := h
  cases pc' with
  | none => rfl
  | some a =>
    cases a with
    | rdEstado | rdDatos | rdControl1 | wrAck => cases no
    | rdControl2 | rdEstado2 => rfl

/-- After reset nothing is held. -/
lemma debe_reset (codeReg : BitVec 4) (d p t : BitVec 32) : debe (reset codeReg d p t) = [] := by
  have inv := inv_reset codeReg d p t
  rw [(inv.debe_libre rfl).2]
  exact debe_clara inv.main rfl

/-- The handler is where it does not mind a change of the registers or of the loop. -/
lemma Inv.of_ack (no : pendienteAck s.pc = false)
    (estado : s.rx.regs.regEstado = 0#32 ∨ ∃ on, s.rx.regs.regEstado = estadoDe on)
    (main : Main.Inv s.main) : Inv s := by
  refine ⟨estado, fun yes => ?_, fun pc => ?_, fun pc => ?_, main⟩
  · rw [no] at yes
    cases yes
  · rw [pc] at no
    cases no
  · rw [pc] at no
    cases no

/-- An access of the handler, without a note. -/
lemma Inv.acceso {s' : St} {a : Acceso} (inv : Inv s) (pc : s.pc = some a)
    (regs : s'.rx.regs = s.rx.regs.clk (pulsoDe none) a.bus) (sig : s'.pc = a.sig)
    (ctx : s'.main = { s.main with ctx := a.guarda (s.rx.regs.rdData a.bus.addr) s.main.ctx }) :
    Inv s' ∧ debe s' = debe s := by
  obtain ⟨rx, pc', main, sonido⟩ := s
  obtain ⟨⟨cod, regs'⟩, pc'', main', sonido'⟩ := s'
  obtain rfl : pc' = some a := pc
  obtain rfl : regs' = _ := regs
  obtain rfl : pc'' = _ := sig
  obtain rfl : main' = _ := ctx
  obtain ⟨estado, ack, rdEstado, rdDatos, loop⟩ := inv
  cases a with
  | rdEstado =>
    obtain ⟨zero, fuera⟩ := rdEstado rfl
    have ne := ack rfl
    exact ⟨⟨estado, fun _ => ne, nofun, fun _ => ⟨ne, fuera⟩, fun _ => ne⟩, rfl⟩
  | rdDatos =>
    obtain ⟨ne, fuera⟩ := rdDatos rfl
    exact ⟨⟨estado, fun _ => ack rfl, nofun, nofun, fun _ => ne⟩,
      debe_fuera (m := { main with ctx := { main.ctx with dato := rx.regs.regDatos } }) fuera ne⟩
  | rdControl1 =>
    exact ⟨⟨estado, fun _ => ack rfl, nofun, nofun, loop⟩, debe_control main _ _ _⟩
  | wrAck =>
    refine ⟨.of_ack rfl (.inl rfl) loop, ?_⟩
    change Main.debe main ++ pendiente (rx.regs.clk (pulsoDe none) Acceso.wrAck.bus) = Main.debe main
    rw [pendiente_zero rfl, List.append_nil]
  | rdControl2 =>
    refine ⟨.of_ack rfl estado loop, ?_⟩
    exact congrArg₂ (· ++ ·) (debe_control main _ _ _) (pendiente_callado rx.regs nofun)
  | rdEstado2 =>
    refine ⟨.of_ack rfl estado loop, ?_⟩
    exact congrArg₂ (· ++ ·) (debe_control main _ _ _) (pendiente_callado rx.regs nofun)

/-- The cycles without a note. -/
lemma Inv.callado {s' : St} {a : Option Acceso} {p : Option (BitVec 32 × BitVec 32)} (inv : Inv s)
    (entra : Entra s i → s.main.ctx.estado = 0#32 ∧ (s.main.pc = .clrDato → s.rx.regs.regDatos = 0#32))
    (c : Ciclo s i none a p s'.rx.regs s'.pc s'.main) : Inv s' ∧ p.toList ++ debe s' = debe s := by
  obtain ⟨⟨cod, regs⟩, pc, main, sonido⟩ := s'
  cases c with
  | acceso _ h => exact inv.acceso h rfl rfl rfl
  | espera _ _ => exact ⟨⟨inv.estado, inv.ack, inv.rdEstado, inv.rdDatos, inv.main⟩, rfl⟩
  | entra h =>
    obtain ⟨zero, dato⟩ := entra h
    obtain ⟨-, none_, irq⟩ := h
    have free : s.main.pc.atiende = false := Bool.eq_false_iff.mpr fun yes => inv.main yes zero
    have ne : s.rx.regs.regEstado ≠ 0#32 := by
      intro zero
      rw [irq_zero zero] at irq
      cases irq
    refine ⟨⟨inv.estado, fun _ => ne, fun _ => ⟨zero, free, dato⟩, nofun, inv.main⟩, ?_⟩
    rw [debe_ack rfl none_, debe_clara inv.main zero, pendiente, if_pos irq]
    rfl
  | bucle _ h =>
    have keep := Main.main_owed.keep s.main
    refine ⟨.of_ack rfl inv.estado (inv.main.next .main), ?_⟩
    rw [debe_ack rfl h, ← keep, List.append_assoc]
    rfl

/-- The cycles in which a note comes. -/
lemma Inv.con_nota {s' : St} {a : Option Acceso} {p : Option (BitVec 32 × BitVec 32)} {e : Midi.NoteEvent}
    (inv : Inv s)
    (nota : s.rx.regs.regEstado = 0#32 ∨
      (a = some .wrAck ∧ s.rx.regs.regEstado = (C.evento e).estado))
    (c : Ciclo s i (some (C.evento e)) a p s'.rx.regs s'.pc s'.main) :
    Inv s' ∧ p.toList ++ debe s' = debe s ++ [C.aviso e] := by
  obtain ⟨⟨cod, regs⟩, pc, main, sonido⟩ := s'
  have regs_e (b : Bus) := regs_nota (C := C) (e := e) (r := s.rx.regs) b (nota.imp id And.right)
  -- from a free handler to a free handler
  have libre (zero : s.rx.regs.regEstado = 0#32) (b : Bus) (m : Main.St) (inv' : Main.Inv m)
      (no : pendienteAck pc = false) :
      Inv ⟨⟨cod, s.rx.regs.clk (pulsoDe (some (C.evento e))) b⟩, pc, m, sonido⟩ ∧
        debe ⟨⟨cod, s.rx.regs.clk (pulsoDe (some (C.evento e))) b⟩, pc, m, sonido⟩ =
          Main.debe m ++ [C.aviso e] := by
    obtain ⟨estado, pend⟩ := regs_e b
    refine ⟨.of_ack no (.inr ⟨_, estado⟩) inv', ?_⟩
    rw [debe_ack no rfl, pend]
  rcases nota with zero | ⟨rfl, same⟩
  · obtain ⟨no, owed⟩ := inv.debe_libre zero
    rw [owed]
    cases c with
    | espera _ _ => exact libre zero _ _ inv.main no
    | entra h =>
      obtain ⟨-, -, irq⟩ := h
      rw [irq_zero zero] at irq
      cases irq
    | @acceso a _ h =>
      rw [h] at no
      cases a with
      | rdEstado | rdDatos | rdControl1 | wrAck => cases no
      | rdControl2 =>
        obtain ⟨inv', eq⟩ := libre zero Acceso.rdControl2.bus
          { s.main with ctx.control2 := s.rx.regs.rdData regControlAddress } inv.main rfl
        exact ⟨inv', eq.trans (congrArg (· ++ [C.aviso e]) (debe_control s.main _ _ _))⟩
      | rdEstado2 =>
        obtain ⟨inv', eq⟩ := libre zero Acceso.rdEstado2.bus
          { s.main with ctx.estado2 := s.rx.regs.rdData regEstadoAddress } inv.main rfl
        exact ⟨inv', eq.trans (congrArg (· ++ [C.aviso e]) (debe_control s.main _ _ _))⟩
    | bucle _ h =>
      obtain ⟨inv', eq⟩ := libre zero _ (Main.sigue s.main) (inv.main.next .main) rfl
      refine ⟨inv', (congrArg (_ ++ ·) eq).trans ?_⟩
      rw [← List.append_assoc]
      exact congrArg (· ++ [C.aviso e]) (Main.main_owed.keep s.main)
  · cases c with
    | acceso _ h =>
      obtain ⟨estado, pend⟩ := regs_e Acceso.wrAck.bus
      refine ⟨.of_ack rfl (.inr ⟨_, estado⟩) inv.main, ?_⟩
      obtain ⟨rx, pc, main, sonido⟩ := s
      obtain rfl : pc = some .wrAck := h
      exact congrArg (Main.debe main ++ ·) pend

/-- A safe cycle keeps the invariant, and hands over what it takes. -/
theorem Inv.ciclo (inv : Inv s) (seguro : Seguro C s i) :
    Inv (C.sistema.next s i) ∧ (aplicado s i).toList ++ debe (C.sistema.next s i) =
      debe s ++ ((C.sistema.out s i).map C.aviso).toList := by
  have c := Sistema.ciclo (C := C) s i
  have nota := seguro.nota
  generalize C.sistema.out s i = ev at c nota ⊢
  cases ev with
  | none =>
    rw [Option.map_none, Option.toList_none, List.append_nil]
    exact inv.callado seguro.entra c
  | some e => exact inv.con_nota (nota e rfl) c

/-! ## The accesses -/

/-- The accesses that the handler has yet to make. -/
def accesos : Option Acceso → ℕ
  | none => 0
  | some .rdEstado => 6
  | some .rdDatos => 5
  | some .rdControl1 => 4
  | some .wrAck => 3
  | some .rdControl2 => 2
  | some .rdEstado2 => 1

/-- An access brings the handler nearer to its end. -/
lemma accesos_sig (a : Acceso) : accesos a.sig + 1 = accesos (some a) := by
  cases a <;> rfl

/-! ## The runs -/

variable {w : ℕ → In}

/-- The invariant of the runs in which every cycle is safe. -/
lemma inv_run (inv : Inv s) (seguro : ∀ t, Seguro C (C.en s w t) (w t)) (t : ℕ) : Inv (C.en s w t) := by
  induction t with
  | zero => exact inv
  | succ t ih => exact (ih.ciclo (seguro t)).1

/-- What has been pulsed has been applied or is still held. -/
lemma conserva_run (inv : Inv s) (nada : debe s = []) (seguro : ∀ t, Seguro C (C.en s w t) (w t)) (t : ℕ) :
    log (C.aplicados s w) t ++ debe (C.en s w t) = log (C.avisos s w) t :=
  log_conserved (fun t => debe (C.en s w t)) nada
    (fun t => ((inv_run inv seguro t).ciclo (seguro t)).2) t

/-- The note logic has taken what has been applied, and nothing else. -/
lemma nota_run (s : St) (t : ℕ) :
    (C.en s w t).main.nota = s.main.nota.aplicaTodos (log (C.aplicados s w) t) := by
  induction t with
  | zero => rfl
  | succ t ih =>
    rw [log_succ, Nota.aplicaTodos_append, ← ih]
    change (mainSig (C.en s w t) (w t)).nota = _
    by_cases h : paso (C.en s w t) (w t) = some .testOn
    · obtain ⟨pc, sig⟩ := paso_pc h
      rw [sig, Cableado.aplicados, aplicado, if_pos h, Main.sigue, pc]
      rfl
    · rw [nota_stays h, Cableado.aplicados, aplicado, if_neg h]
      rfl

end Sistema
