import TecMidi.Soft.Irqhandler
import TecMidi.Soft.Nota

/-!
# The loop of `main`

The loop of `main`, one access to `Mi_Contexto` a step, with `irqhandler` as an atomic step that may
come between any two of them. `Mi_Contexto` is the only slot between the two: the handler overwrites it,
and the loop, which has read it field by field, clears it at the end.

`main_exactlyOnce_iff` says which executions of the handler hand their event over: those that find
`Estado` cleared and, if they come before the loop clears `Dato`, have nothing to lose there.
-/

namespace Main
open Sync

/-- The accesses of the loop to `Mi_Contexto`, and its two accesses to the peripherals. -/
inductive Pc where
  /-- `if (Mi_Contexto.Estado != 0)` -/
  | test
  /-- The arguments of the first `printf`. -/
  | printEstado | printDato | printControl1 | printControl2
  /-- `RDato = Mi_Contexto.Dato` -/
  | rdDato
  /-- `if (Mi_Contexto.Estado == 0x5)`, with the note logic of the branch taken. -/
  | testOn
  /-- The assignments that clear the context. -/
  | clrEstado | clrDato | clrEstado2 | clrControl1 | clrControl2
  /-- The copy of the switches to the leds. -/
  | switches
  /-- The write of `notavel` to the codec. -/
  | codec
deriving DecidableEq, Repr

/-- Between the test of `Estado` and its clearing the loop is handling an event. -/
def Pc.atiende : Pc → Bool
  | test | clrDato | clrEstado2 | clrControl1 | clrControl2 | switches | codec => false
  | _ => true

/-- What an execution of `irqhandler` leaves in the context: it has been called because the interrupt
bit of `Estado` is set. -/
structure Guardado where
  ctx : StTexto
  irq : ctx.estado.getLsbD 0 = true

/-- The status of an event is not 0. -/
lemma Guardado.estado_ne (g : Guardado) : g.ctx.estado ≠ 0#32 := by
  intro zero
  have irq := g.irq
  rw [zero] at irq
  cases irq

/-- A step of the processor: an execution of `irqhandler`, or the next access of the loop. -/
inductive Paso where
  | irq (g : Guardado)
  | main

/-- The context, and the variables of `main`. -/
structure St where
  ctx : StTexto
  pc : Pc
  rDato : BitVec 32
  nota : Nota
deriving DecidableEq, Repr

/-- What a step does: the handler stores an event, the note logic takes one, or the codec is written. -/
structure Out where
  guardado : Option (BitVec 32 × BitVec 32)
  aplicado : Option (BitVec 32 × BitVec 32)
  codec : Option (BitVec 32)

/-- An access of the loop. -/
def sigue (s : St) : St :=
  match s.pc with
  | .test => { s with pc := if s.ctx.estado ≠ 0#32 then .printEstado else .switches }
  | .printEstado => { s with pc := .printDato }
  | .printDato => { s with pc := .printControl1 }
  | .printControl1 => { s with pc := .printControl2 }
  | .printControl2 => { s with pc := .rdDato }
  | .rdDato => { s with pc := .testOn, rDato := s.ctx.dato }
  | .testOn => { s with pc := .clrEstado, nota := s.nota.aplica s.ctx.estado s.rDato }
  | .clrEstado => { s with pc := .clrDato, ctx.estado := 0#32 }
  | .clrDato => { s with pc := .clrEstado2, ctx.dato := 0#32 }
  | .clrEstado2 => { s with pc := .clrControl1, ctx.estado2 := 0#32 }
  | .clrControl1 => { s with pc := .clrControl2, ctx.control1 := 0xFFFFFFFF#32 }
  | .clrControl2 => { s with pc := .switches, ctx.control2 := 0xFFFFFFFF#32 }
  | .switches => { s with pc := .codec }
  | .codec => { s with pc := .test }

/-- The processor. -/
def main : Machine St Paso Out where
  next s
    | .irq g => { s with ctx := g.ctx }
    | .main => sigue s
  out s
    | .irq g => ⟨some (g.ctx.estado, g.ctx.dato), none, none⟩
    | .main => ⟨none, if s.pc = .testOn then some (s.ctx.estado, s.rDato) else none,
        if s.pc = .codec then some s.nota.notavel else none⟩

/-- At the start of the loop. -/
def inicial (rDato primeraTecla teclaActual : BitVec 32) : St where
  ctx := ⟨0#32, 0#32, 0#32, 0xFFFFFFFF#32, 0xFFFFFFFF#32⟩
  pc := .test
  rDato := rDato
  nota := .inicial primeraTecla teclaActual

/-- The note logic has taken the events applied so far, and nothing else. -/
theorem nota_run (s : St) (w : ℕ → Paso) (t : ℕ) :
    (main.run s w t).nota = s.nota.aplicaTodos (log (fun t => (main.wave s w t).aplicado) t) := by
  induction t with
  | zero => rfl
  | succ t ih =>
    rw [log_succ, Nota.aplicaTodos_append, ← ih, Machine.run_succ, Machine.wave]
    generalize main.run s w t = s
    cases w t with
    | irq g => rfl
    | main =>
      obtain ⟨ctx, pc, rDato, nota⟩ := s
      cases pc <;> rfl

/-- The event that the test of `Estado` would find in the context. -/
def enCtx (c : StTexto) : List (BitVec 32 × BitVec 32) :=
  if c.estado ≠ 0#32 then [(c.estado, c.dato)] else []

/-- What the loop still applies if the handler is not executed again. -/
def debe (s : St) : List (BitVec 32 × BitVec 32) :=
  match s.pc with
  | .printEstado | .printDato | .printControl1 | .printControl2 | .rdDato => [(s.ctx.estado, s.ctx.dato)]
  | .testOn => [(s.ctx.estado, s.rDato)]
  | .clrEstado => []
  | .clrDato => enCtx { s.ctx with dato := 0#32 }
  | _ => enCtx s.ctx

/-- The steps until then. -/
def espera (s : St) : ℕ :=
  match s.pc with
  | .clrDato => 13
  | .clrEstado2 => 12
  | .clrControl1 => 11
  | .clrControl2 => 10
  | .switches => 9
  | .codec => 8
  | .test => 7
  | .printEstado => 6
  | .printDato => 5
  | .printControl1 => 4
  | .printControl2 => 3
  | .rdDato => 2
  | .testOn => 1
  | .clrEstado => 0

/-- The loop applies what it owes. -/
theorem main_owed : Owed main Out.aplicado .main debe espera where
  keep s := by
    obtain ⟨ctx, pc, rDato, nota⟩ := s
    cases pc with
    | test =>
      by_cases h : ctx.estado = 0#32
      · simp [main, sigue, debe, enCtx, h]
      · simp [main, sigue, debe, enCtx, h]
    | _ => rfl
  progress s h := by
    obtain ⟨ctx, pc, rDato, nota⟩ := s
    cases pc with
    | test =>
      have ne : ctx.estado ≠ 0#32 := by
        intro zero
        exact h (if_neg (not_not.mpr zero))
      change espera { ctx, pc := if ctx.estado ≠ 0#32 then .printEstado else .switches, rDato, nota } < 7
      rw [if_pos ne]
      exact Nat.lt_succ_self 6
    | clrEstado => exact absurd rfl h
    | _ => exact Nat.lt_succ_self _

/-- An execution of the handler is safe if it finds `Estado` cleared, and stores no data that the loop is
about to clear. -/
def Seguro (s : St) (p : Paso) : Prop :=
  ∀ g, p = .irq g → s.ctx.estado = 0#32 ∧ (s.pc = .clrDato → g.ctx.dato = 0#32)

/-- While the loop handles an event there is one in the context. -/
def Inv (s : St) : Prop := s.pc.atiende = true → s.ctx.estado ≠ 0#32

/-- At first the context is empty. -/
lemma inv_inicial (d p t : BitVec 32) : Inv (inicial d p t) := nofun

/-- Every step keeps the invariant. -/
lemma Inv.next {s : St} (h : Inv s) (p : Paso) : Inv (main.next s p) := by
  cases p with
  | irq g => exact fun _ => g.estado_ne
  | main =>
    obtain ⟨ctx, pc, rDato, nota⟩ := s
    cases pc with
    | test =>
      intro atiende zero
      change Pc.atiende (if ctx.estado ≠ 0#32 then .printEstado else .switches) = true at atiende
      rw [if_neg (not_not.mpr (show ctx.estado = 0#32 from zero))] at atiende
      cases atiende
    | printEstado | printDato | printControl1 | printControl2 | rdDato | testOn => exact fun _ => h rfl
    | _ => nofun

/-- An empty context owes nothing. -/
lemma enCtx_zero {c : StTexto} (h : c.estado = 0#32) : enCtx c = [] := if_neg (not_not.mpr h)

/-- A context with an event owes it. -/
lemma enCtx_ne {c : StTexto} (h : c.estado ≠ 0#32) : enCtx c = [(c.estado, c.dato)] := if_pos h

/-- An event takes the place of another one unless the context is clear. -/
lemma enCtx_iff (c : StTexto) (g : Guardado) (d : BitVec 32) :
    [(g.ctx.estado, d)] = enCtx c ++ [(g.ctx.estado, g.ctx.dato)] ↔
      c.estado = 0#32 ∧ d = g.ctx.dato := by
  by_cases zero : c.estado = 0#32
  · simp [enCtx_zero zero, zero]
  · simp [enCtx_ne zero, zero]

/-- A step hands its event over if and only if it is safe. -/
lemma seguro_iff {s : St} (h : Inv s) (p : Paso) :
    Seguro s p ↔ (main.out s p).aplicado.toList ++ debe (main.next s p) =
      debe s ++ (main.out s p).guardado.toList := by
  cases p with
  | main =>
    rw [main_owed.keep]
    exact ⟨fun _ => (List.append_nil _).symm, nofun⟩
  | irq g =>
    have seguro : Seguro s (.irq g) ↔ s.ctx.estado = 0#32 ∧ (s.pc = .clrDato → g.ctx.dato = 0#32) :=
      ⟨fun h => h g rfl, fun h => by rintro g ⟨⟩; exact h⟩
    rw [seguro]
    obtain ⟨ctx, pc, rDato, nota⟩ := s
    have full : enCtx g.ctx = [(g.ctx.estado, g.ctx.dato)] := enCtx_ne g.estado_ne
    cases pc with
    | clrDato =>
      change _ ↔ enCtx { g.ctx with dato := 0#32 } = enCtx { ctx with dato := 0#32 } ++ _
      rw [show enCtx { g.ctx with dato := 0#32 } = [(g.ctx.estado, 0#32)] from if_pos g.estado_ne]
      exact (and_congr_right fun _ => ⟨fun h => (h rfl).symm, fun h _ => h.symm⟩).trans
        (enCtx_iff { ctx with dato := 0#32 } g 0#32).symm
    | test | clrEstado2 | clrControl1 | clrControl2 | switches | codec =>
      change _ ↔ enCtx g.ctx = enCtx ctx ++ _
      rw [full]
      exact (and_congr_right fun _ => ⟨fun _ => rfl, fun _ => nofun⟩).trans
        (enCtx_iff ctx g g.ctx.dato).symm
    | printEstado | printDato | printControl1 | printControl2 | rdDato | testOn | clrEstado =>
      have ne : ctx.estado ≠ 0#32 := h rfl
      refine ⟨fun seguro => absurd seguro.1 ne, fun eq => ?_⟩
      exact absurd (congrArg List.length eq).symm (Nat.succ_ne_self _)

/-- Every event stored by the handler is applied to the note logic exactly once, in order and whole, if
and only if every execution of the handler finds `Estado` cleared, and stores no data that are cleared
before they are read. -/
theorem main_exactlyOnce_iff (rDato primeraTecla teclaActual : BitVec 32) (w : ℕ → Paso) :
    ((∀ t, ExactlyOnce main Out.guardado Out.aplicado .main
        (inicial rDato primeraTecla teclaActual) w t) ↔
      ∀ t, Seguro (main.run (inicial rDato primeraTecla teclaActual) w t) (w t)) ∧
    ∀ t, (main.run (inicial rDato primeraTecla teclaActual) w t).nota =
      (Nota.inicial primeraTecla teclaActual).aplicaTodos
        (log (fun t => (main.wave (inicial rDato primeraTecla teclaActual) w t).aplicado) t) :=
  ⟨main_owed.exactlyOnce_run_iff (inv_inicial _ _ _) rfl (fun _ p h _ => h.next p)
    fun _ p h => seguro_iff h p, nota_run _ w⟩

/-- The context after the handler has read a Note On of key code `k`. -/
def pulsada (k : BitVec 8) : Guardado where
  ctx := ⟨0x5#32, 0#32, 0x0000#16 ++ (0xC8#8 ++ k), 0#32, 1#32⟩
  irq := (by decide : (0x5#32).getLsbD 0 = true)

/-- A second key is pressed while the loop prints the first one. -/
def durantePrintf (t : ℕ) : Paso :=
  if t = 0 then .irq (pulsada 0x78#8) else if t = 3 then .irq (pulsada 0x7C#8) else .main

/-- The first key is lost. -/
theorem main_not_exactlyOnce : ¬ ∀ t, ExactlyOnce main Out.guardado Out.aplicado .main
    (inicial 0#32 0#32 0#32) durantePrintf t := fun always =>
  absurd (main_owed.exactlyOnce_iff.mp (always 4)) (by decide)

end Main
