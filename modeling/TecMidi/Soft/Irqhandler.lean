import TecMidi.Bus.AvalonRx
import TecMidi.Sync.Handoff

/-!
# `irqhandler`: capture of the events

The six accesses of `irqhandler` to the registers of `avalon_RxDecMIDI`, in their order, and what each
of them leaves in `Mi_Contexto`. `captura` runs the registers and the handler together: in every cycle
there may be an event, and the handler, which starts when it is idle and `irq = 1`, may make its next
access.

An execution of the handler captures the pair of `RegEstado` and `RegDatos` that it has read. The device
has no queue, and the acknowledgement clears `RegEstado` whatever it holds: `captura_exactlyOnce_iff`
says for which events capture works.
-/

/-- `struct st_texto`, through which `irqhandler` hands an event to `main`. -/
structure StTexto where
  estado : BitVec 32
  estado2 : BitVec 32
  dato : BitVec 32
  control1 : BitVec 32
  control2 : BitVec 32
deriving DecidableEq, Repr

namespace Irqhandler
open Sync AvalonRx

/-- The value written to acknowledge. -/
def regControlAck : BitVec 32 := 0x01#32

/-- The accesses of `irqhandler`. -/
inductive Acceso where
  | rdEstado | rdDatos | rdControl1 | wrAck | rdControl2 | rdEstado2
deriving DecidableEq, Repr

namespace Acceso

/-- The bus cycle of an access. -/
def bus : Acceso → Bus
  | rdEstado => .read regEstadoAddress
  | rdDatos => .read regDatosAddress
  | rdControl1 => .read regControlAddress
  | wrAck => .write regControlAddress regControlAck
  | rdControl2 => .read regControlAddress
  | rdEstado2 => .read regEstadoAddress

/-- What an access that reads `data` leaves in the context. -/
def guarda (data : BitVec 32) (c : StTexto) : Acceso → StTexto
  | rdEstado => { c with estado := data }
  | rdDatos => { c with dato := data }
  | rdControl1 => { c with control1 := data }
  | wrAck => c
  | rdControl2 => { c with control2 := data }
  | rdEstado2 => { c with estado2 := data }

/-- The access after this one; none if `irqhandler` returns. -/
def sig : Acceso → Option Acceso
  | rdEstado => some rdDatos
  | rdDatos => some rdControl1
  | rdControl1 => some wrAck
  | wrAck => some rdControl2
  | rdControl2 => some rdEstado2
  | rdEstado2 => none

end Acceso

/-- An event as the device latches it: its kind and the content of `RegDatos`. -/
structure Evento where
  on : Bool
  keyCode : BitVec 8
  velCode : BitVec 8
deriving DecidableEq, Repr

/-- The bits of `RegEstado` for a kind of event: `0x5` for Note On, `0x3` for Note Off. -/
def estadoDe (on : Bool) : BitVec 32 := if on = true then 0x5#32 else 0x3#32

/-- What `RegEstado` holds for an event. -/
def Evento.estado (e : Evento) : BitVec 32 := estadoDe e.on

/-- What `RegDatos` holds for it. -/
def Evento.dato (e : Evento) : BitVec 32 := 0x0000#16 ++ (e.velCode ++ e.keyCode)

/-- An event, or the absence of one, as a note pulse. -/
def pulsoDe : Option Evento → Pulso
  | some e => ⟨e.on, !e.on, e.keyCode, e.velCode⟩
  | none => ⟨false, false, 0#8, 0#8⟩

/-- The registers and the handler: its next access, if it is running, and the context. -/
structure St where
  regs : Regs
  pc : Option Acceso
  ctx : StTexto
deriving DecidableEq, Repr

/-- The inputs of a cycle: an event, and whether the handler makes its next access. -/
structure In where
  evento : Option Evento
  va : Bool
deriving DecidableEq, Repr

/-- What happens in a cycle: an event comes in, or the handler has read one. -/
structure Out where
  evento : Option (BitVec 32 × BitVec 32)
  capturado : Option (BitVec 32 × BitVec 32)

/-- The access of the handler in a cycle, if any. -/
def acceso (s : St) (i : In) : Option Acceso := if i.va = true then s.pc else none

/-- A clock cycle of the registers and the handler. -/
def clk (s : St) (i : In) : St where
  regs := s.regs.clk (pulsoDe i.evento) (match acceso s i with
    | some a => a.bus
    | none => .idle)
  pc := match s.pc with
    | none => if s.regs.irq = true then some .rdEstado else none
    | some a => if i.va = true then a.sig else some a
  ctx := match acceso s i with
    | some a => a.guarda (s.regs.rdData a.bus.addr) s.ctx
    | none => s.ctx

/-- The handler has both halves of an event when it reads `RegDatos`. -/
def captura : Machine St In Out where
  next := clk
  out s i :=
    { evento := i.evento.map fun e => (e.estado, e.dato)
      capturado := if acceso s i = some .rdDatos then some (s.ctx.estado, s.regs.regDatos) else none }

/-- After reset, with the handler idle. -/
def reset (c : StTexto) : St := ⟨.reset, none, c⟩

/-- An event is safe if no other one is pending acknowledgement, or if the one before, of the same kind,
is acknowledged in this very cycle. -/
def Seguro (s : St) (i : In) : Prop :=
  ∀ e, i.evento = some e → s.regs.regEstado = 0#32 ∨
    (acceso s i = some .wrAck ∧ s.regs.regEstado = e.estado)

/-- The event that waits in the registers. -/
def pendiente (r : Regs) : List (BitVec 32 × BitVec 32) :=
  if r.irq = true then [(r.regEstado, r.regDatos)] else []

/-- What the handler still captures if no further event comes in. -/
def debe (s : St) : List (BitVec 32 × BitVec 32) :=
  match s.pc with
  | some .rdEstado => [(s.regs.regEstado, s.regs.regDatos)]
  | some .rdDatos => [(s.ctx.estado, s.regs.regDatos)]
  | some .rdControl1 => []
  | some .wrAck => []
  | _ => pendiente s.regs

/-- The cycles until then. -/
def espera (s : St) : ℕ :=
  match s.pc with
  | some .rdControl2 => 5
  | some .rdEstado2 => 4
  | none => 3
  | some .rdEstado => 2
  | some .rdDatos => 1
  | _ => 0

/-- `RegEstado` holds the status of at most one event, and does so until it has been acknowledged. -/
structure Inv (s : St) : Prop where
  estado : s.regs.regEstado = 0#32 ∨ ∃ on, s.regs.regEstado = estadoDe on
  leido : s.pc = some .rdEstado ∨ s.pc = some .rdDatos ∨ s.pc = some .rdControl1 ∨
    s.pc = some .wrAck → s.regs.regEstado ≠ 0#32

/-! ## The registers -/

/-- The status of an event is not 0. -/
@[simp] lemma estadoDe_ne (on : Bool) : estadoDe on ≠ 0#32 := by
  cases on <;> decide

/-- An event leaves the status of another one as it is only if both are of one kind. -/
lemma or_estadoDe (a b : Bool) : estadoDe a ||| estadoDe b = estadoDe b ↔ estadoDe a = estadoDe b := by
  cases a <;> cases b <;> decide

/-- The status of an event requests an interrupt. -/
lemma irq_estadoDe {r : Regs} {on : Bool} (h : r.regEstado = estadoDe on) : r.irq = true := by
  rw [Regs.irq, h]
  cases on <;> rfl

/-- Without an event no interrupt is requested. -/
lemma irq_zero {r : Regs} (h : r.regEstado = 0#32) : r.irq = false := by
  rw [Regs.irq, h]
  rfl

/-- An event adds its bits to the status. -/
@[simp] lemma regEstado_some (r : Regs) (e : Evento) (b : Bus) :
    (r.clk (pulsoDe (some e)) b).regEstado = r.regEstado ||| e.estado := by
  obtain ⟨on, k, v⟩ := e
  cases on <;> rfl

/-- An event replaces the data. -/
@[simp] lemma regDatos_some (r : Regs) (e : Evento) (b : Bus) :
    (r.clk (pulsoDe (some e)) b).regDatos = e.dato := by
  obtain ⟨on, k, v⟩ := e
  cases on <;> rfl

/-- With the status cleared nothing is pending. -/
lemma pendiente_zero {r : Regs} (h : r.regEstado = 0#32) : pendiente r = [] := by
  simp [pendiente, irq_zero h]

/-- What is pending depends on the status and the data only. -/
lemma pendiente_congr {r r' : Regs} (he : r'.regEstado = r.regEstado)
    (hd : r'.regDatos = r.regDatos) : pendiente r' = pendiente r := by
  rw [pendiente, Regs.irq, he, hd]
  rfl

/-- An event that finds the registers free is the one that waits in them. -/
lemma pendiente_some {r : Regs} (h : r.regEstado = 0#32) (e : Evento) (b : Bus) :
    pendiente (r.clk (pulsoDe (some e)) b) = [(e.estado, e.dato)] := by
  have estado : (r.clk (pulsoDe (some e)) b).regEstado = estadoDe e.on := by
    rw [regEstado_some, h, BitVec.zero_or]
    rfl
  rw [pendiente, if_pos (irq_estadoDe estado), estado, regDatos_some]
  rfl

/-! ## The steps -/

section Steps
variable (r : Regs) (a : Acceso) (c : StTexto) (e : Option Evento) (va : Bool)

/-- A cycle in which the handler is not running. -/
lemma clk_idle : clk ⟨r, none, c⟩ ⟨e, va⟩ =
    ⟨r.clk (pulsoDe e) .idle, if r.irq = true then some .rdEstado else none, c⟩ := by
  cases va <;> rfl

/-- A cycle in which the handler makes an access. -/
lemma clk_va : clk ⟨r, some a, c⟩ ⟨e, true⟩ =
    ⟨r.clk (pulsoDe e) a.bus, a.sig, a.guarda (r.rdData a.bus.addr) c⟩ := rfl

end Steps

/-- Without further events exactly what is owed is captured. -/
lemma debe_keep (s : St) :
    (captura.out s ⟨none, true⟩).capturado.toList ++ debe (captura.next s ⟨none, true⟩) = debe s := by
  obtain ⟨r, pc, c⟩ := s
  cases pc with
  | none =>
    change debe (clk ⟨r, none, c⟩ ⟨none, true⟩) = pendiente r
    rw [clk_idle]
    by_cases h : r.irq = true
    · rw [if_pos h, pendiente, if_pos h]
      rfl
    · rw [if_neg h]
      exact pendiente_congr rfl rfl
  | some a =>
    change _ ++ debe (clk ⟨r, some a, c⟩ ⟨none, true⟩) = _
    rw [clk_va]
    cases a with
    | rdEstado => rfl
    | rdDatos => rfl
    | rdControl1 => rfl
    | wrAck => exact pendiente_zero rfl
    | rdControl2 => exact pendiente_congr rfl rfl
    | rdEstado2 => exact pendiente_congr rfl rfl

/-- What is owed is captured in time. -/
lemma espera_lt (s : St) (h : debe s ≠ []) : espera (captura.next s ⟨none, true⟩) < espera s := by
  obtain ⟨r, pc, c⟩ := s
  cases pc with
  | none =>
    have irq : r.irq = true := by
      by_contra no
      exact h (if_neg no)
    change espera (clk ⟨r, none, c⟩ ⟨none, true⟩) < 3
    rw [clk_idle, if_pos irq]
    exact Nat.lt_succ_self 2
  | some a =>
    change espera (clk ⟨r, some a, c⟩ ⟨none, true⟩) < _
    rw [clk_va]
    cases a with
    | rdControl1 => exact absurd rfl h
    | wrAck => exact absurd rfl h
    | _ => exact Nat.lt_succ_self _

/-- The handler captures what it owes. -/
theorem captura_owed : Owed captura Out.capturado ⟨none, true⟩ debe espera := ⟨debe_keep, espera_lt⟩

/-! ## The invariant -/

/-- After reset nothing is pending. -/
lemma inv_reset (c : StTexto) : Inv (reset c) := ⟨.inl rfl, by simp [reset]⟩

/-- A safe event leaves its own kind in the status register. -/
lemma Seguro.regEstado {s : St} {e : Evento} {va : Bool} (h : Seguro s ⟨some e, va⟩) :
    (clk s ⟨some e, va⟩).regs.regEstado = estadoDe e.on := by
  change (s.regs.clk (pulsoDe (some e)) _).regEstado = e.estado
  rw [regEstado_some]
  rcases h e rfl with zero | ⟨-, eq⟩
  · rw [zero, BitVec.zero_or]
  · rw [eq, BitVec.or_self]

/-- A cycle without an event keeps the invariant. -/
lemma Inv.none {s : St} (h : Inv s) (va : Bool) : Inv (clk s ⟨none, va⟩) := by
  obtain ⟨r, pc, c⟩ := s
  obtain ⟨estado, leido⟩ := h
  cases pc with
  | none =>
    rw [clk_idle]
    refine ⟨estado, fun h => ?_⟩
    intro zero
    simp [irq_zero (r := r) zero] at h
  | some a =>
    cases va with
    | false => exact ⟨estado, leido⟩
    | true =>
      rw [clk_va]
      cases a with
      | rdEstado => exact ⟨estado, fun _ => leido (.inl rfl)⟩
      | rdDatos => exact ⟨estado, fun _ => leido (.inr (.inl rfl))⟩
      | rdControl1 => exact ⟨estado, fun _ => leido (.inr (.inr (.inl rfl)))⟩
      | wrAck => exact ⟨.inl rfl, by simp [Acceso.sig]⟩
      | rdControl2 => exact ⟨estado, by simp [Acceso.sig]⟩
      | rdEstado2 => exact ⟨estado, by simp [Acceso.sig]⟩

/-- A cycle with a safe event keeps the invariant. -/
lemma Inv.next {s : St} {i : In} (h : Inv s) (seguro : Seguro s i) : Inv (captura.next s i) := by
  obtain ⟨evento, va⟩ := i
  cases evento with
  | none => exact h.none va
  | some e =>
    have eq := seguro.regEstado
    exact ⟨.inr ⟨e.on, eq⟩, fun _ zero => estadoDe_ne e.on (eq.symm.trans zero)⟩

/-! ## The events -/

/-- What has been captured in a cycle, and what is owed after it. -/
abbrev captado (s : St) (i : In) : List (BitVec 32 × BitVec 32) :=
  (captura.out s i).capturado.toList ++ debe (captura.next s i)

/-- An idle handler is entered with what is pending. -/
lemma captado_idle (r : Regs) (c : StTexto) (e : Option Evento) (va : Bool) :
    captado ⟨r, none, c⟩ ⟨e, va⟩ =
      debe ⟨r.clk (pulsoDe e) .idle, if r.irq = true then some .rdEstado else none, c⟩ := by
  cases va <;> rfl

/-- Without an event nothing is lost, however long the handler waits. -/
lemma captado_none (s : St) (va : Bool) : captado s ⟨none, va⟩ = debe s := by
  cases va with
  | true => exact debe_keep s
  | false =>
    obtain ⟨r, pc, c⟩ := s
    cases pc with
    | none => exact debe_keep ⟨r, none, c⟩
    | some a => cases a <;> rfl

/-- An event that comes when the status has been cleared is captured. -/
lemma captado_libre {s : St} (h : Inv s) (zero : s.regs.regEstado = 0#32) (e : Evento) (va : Bool) :
    captado s ⟨some e, va⟩ = debe s ++ [(e.estado, e.dato)] := by
  obtain ⟨r, pc, c⟩ := s
  have nada : pendiente r = [] := pendiente_zero zero
  have leido := fun h' => h.leido h' zero
  cases pc with
  | none =>
    have irq : r.irq ≠ true := by simp [irq_zero (r := r) zero]
    change _ = pendiente r ++ _
    rw [captado_idle, if_neg irq, nada]
    exact pendiente_some zero e _
  | some a =>
    cases a with
    | rdEstado => exact (leido (.inl rfl)).elim
    | rdDatos => exact (leido (.inr (.inl rfl))).elim
    | rdControl1 => exact (leido (.inr (.inr (.inl rfl)))).elim
    | wrAck => exact (leido (.inr (.inr (.inr rfl)))).elim
    | rdControl2 =>
      change _ = pendiente r ++ _
      rw [nada]
      cases va <;> exact pendiente_some zero e _
    | rdEstado2 =>
      change _ = pendiente r ++ _
      rw [nada]
      cases va <;> exact pendiente_some zero e _

/-- At most one event is pending. -/
lemma pendiente_length (r : Regs) : (pendiente r).length ≤ 1 := by
  rw [pendiente]
  split <;> simp

/-- An event that comes before the acknowledgement of the one before is captured in its place, or lost. -/
lemma captado_ocupado {s : St} {i : In} (h : Inv s) (ne : s.regs.regEstado ≠ 0#32)
    (sin : acceso s i ≠ some .wrAck) : (captado s i).length ≤ (debe s).length := by
  obtain ⟨r, pc, c⟩ := s
  obtain ⟨on, eq⟩ := h.estado.resolve_left ne
  have irq : r.irq = true := irq_estadoDe eq
  have uno : (pendiente r).length = 1 := by rw [pendiente, if_pos irq, List.length_singleton]
  obtain ⟨evento, va⟩ := i
  cases pc with
  | none =>
    change _ ≤ (pendiente r).length
    rw [captado_idle, if_pos irq, uno]
    exact Nat.le_refl 1
  | some a =>
    cases a with
    | rdEstado => cases va <;> exact Nat.le_refl 1
    | rdDatos => cases va <;> exact Nat.le_refl 1
    | rdControl1 => cases va <;> exact Nat.le_refl 0
    | wrAck =>
      cases va with
      | false => exact Nat.le_refl 0
      | true => exact absurd rfl sin
    | rdControl2 =>
      change _ ≤ (pendiente r).length
      rw [uno]
      cases va <;> exact pendiente_length _
    | rdEstado2 =>
      change _ ≤ (pendiente r).length
      rw [uno]
      cases va <;> exact pendiente_length _

/-- An event that coincides with the acknowledgement is captured with the status of both. -/
lemma captado_ack {s : St} {i : In} {on : Bool} (h : s.regs.regEstado = estadoDe on) {e : Evento}
    (he : i.evento = some e) (ack : acceso s i = some .wrAck) :
    captado s i = debe s ++ [(estadoDe on ||| e.estado, e.dato)] := by
  obtain ⟨r, pc, c⟩ := s
  obtain ⟨evento, va⟩ := i
  subst he
  cases va with
  | false => exact absurd ack (by simp [acceso])
  | true =>
    obtain rfl : pc = some .wrAck := ack
    have estado : (r.clk (pulsoDe (some e)) Acceso.wrAck.bus).regEstado = estadoDe on ||| e.estado := by
      rw [regEstado_some, h]
    have irq : (r.clk (pulsoDe (some e)) Acceso.wrAck.bus).irq = true := by
      rw [Regs.irq, estado, Evento.estado]
      cases on <;> cases e.on <;> rfl
    change pendiente (r.clk (pulsoDe (some e)) Acceso.wrAck.bus) = _
    rw [pendiente, if_pos irq, estado, regDatos_some]
    rfl

/-- A cycle hands its event over if and only if the event is safe. -/
lemma seguro_iff {s : St} (h : Inv s) (i : In) :
    Seguro s i ↔ captado s i = debe s ++ (captura.out s i).evento.toList := by
  obtain ⟨evento, va⟩ := i
  cases evento with
  | none =>
    rw [captado_none]
    exact ⟨fun _ => (List.append_nil _).symm, nofun⟩
  | some e =>
    change _ ↔ _ = debe s ++ [(e.estado, e.dato)]
    by_cases zero : s.regs.regEstado = 0#32
    · exact ⟨fun _ => captado_libre h zero e va, fun _ _ _ => .inl zero⟩
    · by_cases ack : acceso s ⟨some e, va⟩ = some .wrAck
      · obtain ⟨on, eq⟩ := h.estado.resolve_left zero
        rw [captado_ack eq rfl ack]
        have kind : estadoDe on ||| e.estado = e.estado ↔ estadoDe on = e.estado := or_estadoDe on e.on
        simp only [List.append_cancel_left_eq, List.cons.injEq, Prod.mk.injEq, and_true, kind]
        constructor
        · intro seguro
          exact ((seguro e rfl).resolve_left zero).2.symm.trans eq |>.symm
        · rintro same e' ⟨⟩
          exact .inr ⟨ack, eq.trans same⟩
      · constructor
        · intro seguro
          rcases seguro e rfl with zero' | ⟨ack', -⟩
          · exact absurd zero' zero
          · exact absurd ack' ack
        · intro eq
          have le := captado_ocupado h zero ack
          rw [eq, List.length_append, List.length_singleton] at le
          omega

/-- Every event is captured exactly once, with its own status and data, if and only if every event
comes when the one before has been acknowledged, or with its acknowledgement and of its same kind. -/
theorem captura_exactlyOnce_iff (c : StTexto) (w : ℕ → In) :
    (∀ t, ExactlyOnce captura Out.evento Out.capturado ⟨none, true⟩ (reset c) w t) ↔
      ∀ t, Seguro (captura.run (reset c) w t) (w t) :=
  captura_owed.exactlyOnce_run_iff (inv_reset c) (pendiente_zero rfl) (fun _ _ h => h.next)
    fun _ i h => seguro_iff h i

/-- The handler never owes more than one event. -/
lemma debe_length (s : St) : (debe s).length ≤ 1 := by
  obtain ⟨r, pc, c⟩ := s
  cases pc with
  | none => exact pendiente_length r
  | some a =>
    cases a with
    | rdControl1 => exact Nat.zero_le 1
    | wrAck => exact Nat.zero_le 1
    | rdControl2 => exact pendiente_length r
    | rdEstado2 => exact pendiente_length r
    | _ => exact Nat.le_refl 1

/-- Key 60 is pressed and, `n` cycles later, released before the handler has read anything. -/
def tarde (n t : ℕ) : In where
  evento := if t = 0 then some ⟨true, 0x78#8, 0xC8#8⟩ else
    if t = n + 1 then some ⟨false, 0x78#8, 0x80#8⟩ else none
  va := false

/-- With that, one of the two events is lost. -/
lemma tarde_lost (c : StTexto) (n : ℕ) :
    ¬ ExactlyOnce captura Out.evento Out.capturado ⟨none, true⟩ (reset c) (tarde n) (n + 2) := by
  intro once
  have eq := captura_owed.exactlyOnce_iff.mp once
  have nada : log (fun t => (captura.wave (reset c) (tarde n) t).capturado) (n + 2) = [] := by
    refine log_eq_nil fun t _ => ?_
    simp [Machine.wave, captura, acceso, tarde]
  have dos : log (fun t => (captura.wave (reset c) (tarde n) t).evento) (n + 2) =
      [(0x5#32, 0xC878#32), (0x3#32, 0x8078#32)] := by
    rw [log_succ, log_of_quiet (m := 1) (by omega)]
    · simp [Machine.wave, captura, tarde, log_succ, Evento.estado, estadoDe, Evento.dato]
    · intro t lo hi
      have ne0 : t ≠ 0 := by omega
      have ne1 : t ≠ n + 1 := by omega
      simp [Machine.wave, captura, tarde, ne0, ne1]
  have le := debe_length (captura.run (reset c) (tarde n) (n + 2))
  rw [nada, dos, List.nil_append] at eq
  rw [eq] at le
  exact absurd le (by decide)

/-- So capture fails, here with the time of three bytes between the events. -/
theorem captura_not_exactlyOnce : ¬ ∀ t, ExactlyOnce captura Out.evento Out.capturado ⟨none, true⟩
    (reset ⟨0#32, 0#32, 0#32, 0xFFFFFFFF#32, 0xFFFFFFFF#32⟩) (tarde 48000) t :=
  fun always => tarde_lost _ 48000 (always _)

end Irqhandler
