import TecMidi.Rx.Muestreo
import TecMidi.System.Conserva

/-!
# A punctual processor

On any line there are 30444 cycles at least between two notes (`Codificador.notas_apart`). In that time a
note needs seven turns of the handler and then at most nineteen of the loop: `turnosIrq` and `turnosMain`
count them, up to the write of the codec. `Pronto` is what the states have in common if they come in time.

If all windows of `K` cycles, for some `K` of at most 30443, have these turns in this order, then every
cycle is safe whatever the line carries. `puntual` draws the conclusion: what is pulsed is applied once, in
order and within `K` cycles, and after `K` cycles without a note the codec has the last `notavel`.
-/

namespace Sistema
open Sync AvalonRx Irqhandler

variable {C : Cableado} {s s' : St} {i : In}

/-- The turns of the handler that a note waits for. -/
def turnosIrq (s : St) : ℕ :=
  match s.pc with
  | none => if s.rx.regs.regEstado = 0#32 then 0 else 7
  | some a => accesos (some a)

/-- The steps of the loop up to the write of the codec, with the context clear. -/
def vuelta : Main.Pc → ℕ
  | .clrDato => 6
  | .clrEstado2 => 5
  | .clrControl1 => 4
  | .clrControl2 => 3
  | .test => 3
  | .switches => 2
  | .codec => 1
  | _ => 0

/-- The steps of the loop until the event in the context has been applied and the codec `c` has the result. -/
def resto (m : Main.St) (c : AvalonSound) : ℕ :=
  if m.ctx.estado ≠ 0#32 then Main.espera m + 7
  else if c = ⟨m.nota.notavel⟩ ∧ m.pc ≠ .clrDato then 0
  else vuelta m.pc

/-- The turns of the loop that it waits for after that. -/
def turnosMain (s : St) : ℕ := if turnosIrq s ≠ 0 then 19 else resto s.main s.sonido

/-- The turns that are waited for. -/
def faltan (s : St) : List Turno :=
  List.replicate (turnosIrq s) .irq ++ List.replicate (turnosMain s) .main

/-- What the states have in common as long as notes come when nothing is waited for. -/
structure Pronto (s : St) : Prop where
  inv : Inv s
  clara : s.rx.regs.regEstado ≠ 0#32 → s.pc = none → s.main.ctx.estado = 0#32
  fuera : turnosIrq s ≠ 0 → s.main.pc.atiende = false ∧ s.main.pc ≠ .clrDato
  ack : pendienteAck s.pc = false → s.pc ≠ none → s.rx.regs.regEstado = 0#32
  clrDato : s.main.pc = .clrDato → s.main.ctx.estado = 0#32

/-- Nothing is waited for. -/
structure Calma (s : St) : Prop where
  estado : s.rx.regs.regEstado = 0#32
  pc : s.pc = none
  clara : s.main.ctx.estado = 0#32
  fuera : s.main.pc.atiende = false ∧ s.main.pc ≠ .clrDato
  codec : s.sonido = ⟨s.main.nota.notavel⟩

/-! ## The loop -/

/-- The loop is never more than 19 steps from that. -/
lemma resto_le {m : Main.St} (clr : m.pc = .clrDato → m.ctx.estado = 0#32) (c : AvalonSound) :
    resto m c ≤ 19 := by
  obtain ⟨ctx, pc, rDato, nota⟩ := m
  rw [resto]
  split
  case isTrue ne =>
    cases pc with
    | clrDato => exact absurd (clr rfl) ne
    | _ => simp [Main.espera]
  case isFalse =>
    split
    · exact Nat.zero_le 19
    · cases pc <;> simp [vuelta]

/-- A step of the loop. -/
lemma resto_sigue {m : Main.St} (inv : Main.Inv m) (clr : m.pc = .clrDato → m.ctx.estado = 0#32)
    (c : AvalonSound) :
    resto (Main.sigue m) (if m.pc = .codec then ⟨m.nota.notavel⟩ else c) ≤ resto m c - 1 := by
  obtain ⟨ctx, pc, rDato, nota⟩ := m
  by_cases zero : ctx.estado = 0#32
  · cases pc with
    | printEstado | printDato | printControl1 | printControl2 | rdDato | testOn | clrEstado =>
      exact absurd zero (inv rfl)
    | _ => by_cases same : c = ⟨nota.notavel⟩ <;> simp [resto, Main.sigue, vuelta, zero, same]
  · cases pc with
    | clrDato => exact absurd (clr rfl) zero
    | _ => simp [resto, Main.sigue, Main.espera, vuelta, zero]

/-- Outside of the part that handles an event, and with the context clear, the loop stays so. -/
lemma sigue_fuera {m : Main.St} (fuera : m.pc.atiende = false ∧ m.pc ≠ .clrDato)
    (zero : m.ctx.estado = 0#32) :
    ((Main.sigue m).pc.atiende = false ∧ (Main.sigue m).pc ≠ .clrDato) ∧
      (Main.sigue m).ctx.estado = 0#32 := by
  obtain ⟨ctx, pc, rDato, nota⟩ := m
  obtain ⟨no, ne⟩ := fuera
  replace zero : ctx.estado = 0#32 := zero
  cases pc with
  | printEstado | printDato | printControl1 | printControl2 | rdDato | testOn | clrEstado => cases no
  | clrDato => exact absurd rfl ne
  | _ => simp [Main.sigue, Main.Pc.atiende, zero]

/-- The loop comes to `clrDato` with the context cleared only. -/
lemma sigue_clrDato {m : Main.St} (h : (Main.sigue m).pc = .clrDato) : (Main.sigue m).ctx.estado = 0#32 := by
  obtain ⟨ctx, pc, rDato, nota⟩ := m
  cases pc with
  | clrEstado => rfl
  | test =>
    change (if ctx.estado ≠ 0#32 then Main.Pc.printEstado else .switches) = .clrDato at h
    split at h <;> cases h
  | _ => cases h

/-! ## The steps -/

/-- The codec takes `notavel` when the loop writes it. -/
lemma sonido_next (s : St) (i : In) : (C.sistema.next s i).sonido =
    if paso s i = some .codec then ⟨s.main.nota.notavel⟩ else s.sonido := by
  change s.sonido.clk (busSonido s i) = _
  rw [busSonido]
  split
  · rfl
  · rfl

/-- When both have had their turns, nothing is waited for. -/
lemma Pronto.calma (p : Pronto s) (irq : turnosIrq s = 0) (loop : turnosMain s = 0) : Calma s := by
  have main := p.inv.main
  obtain ⟨rx, pc, m, sonido⟩ := s
  cases pc with
  | some a =>
    have one := accesos_sig a
    replace irq : accesos (some a) = 0 := irq
    omega
  | none =>
    have estado : rx.regs.regEstado = 0#32 := by
      by_contra ne
      rw [turnosIrq, if_neg ne] at irq
      cases irq
    rw [turnosMain, if_neg (not_not.mpr irq), resto] at loop
    have clara : m.ctx.estado = 0#32 := by
      by_contra ne
      rw [if_pos ne] at loop
      cases loop
    have free : m.pc.atiende = false := Bool.eq_false_iff.mpr fun yes => main yes clara
    have codec : sonido = ⟨m.nota.notavel⟩ ∧ m.pc ≠ .clrDato := by
      by_contra no
      rw [if_neg (not_not.mpr clara), if_neg no] at loop
      cases h : m.pc <;> simp [h, vuelta, Main.Pc.atiende] at loop free
    exact ⟨estado, rfl, clara, ⟨free, codec.2⟩, codec.1⟩

/-- The handler is entered when the loop is done. -/
lemma Pronto.entra (p : Pronto s) (h : Entra s i) :
    s.main.ctx.estado = 0#32 ∧ s.main.pc ≠ .clrDato ∧ turnosIrq s = 7 := by
  obtain ⟨-, pc, irq⟩ := h
  have ne : s.rx.regs.regEstado ≠ 0#32 := by
    intro zero
    rw [irq_zero zero] at irq
    cases irq
  have seven : turnosIrq s = 7 := by rw [turnosIrq, pc, if_neg ne]
  exact ⟨p.clara ne pc, (p.fuera (by rw [seven]; simp)).2, seven⟩

/-- The turns are those of the two counters, and of the registers if the handler is not running. -/
lemma turnosIrq_none (pc : s.pc = none) :
    turnosIrq s = if s.rx.regs.regEstado = 0#32 then 0 else 7 := by
  rw [turnosIrq, pc]

/-- While the handler is running, its turns are its accesses. -/
lemma turnosIrq_some {a : Acceso} (pc : s.pc = some a) : turnosIrq s = accesos (some a) := by
  rw [turnosIrq, pc]

/-- No more than 19 turns of the loop are waited for. -/
lemma turnosMain_le (clr : s.main.pc = .clrDato → s.main.ctx.estado = 0#32) : turnosMain s ≤ 19 := by
  rw [turnosMain]
  split
  · exact Nat.le_refl 19
  · exact resto_le clr _

/-- An access of the handler. -/
lemma Pronto.acceso {b : Acceso} (p : Pronto s) (pc : s.pc = some b) (inv' : Inv s')
    (regs : s'.rx.regs = s.rx.regs.clk (pulsoDe none) b.bus) (sig : s'.pc = b.sig)
    (loop : s'.main = { s.main with ctx := b.guarda (s.rx.regs.rdData b.bus.addr) s.main.ctx }) :
    Pronto s' ∧ turnosIrq s' + 1 = turnosIrq s ∧ turnosMain s' ≤ turnosMain s := by
  have one := accesos_sig b
  have irq := turnosIrq_some pc
  obtain ⟨free, ne⟩ := p.fuera (by omega)
  have same : s'.main.pc = s.main.pc := by rw [loop]
  rw [← same] at free ne
  have clr : s'.main.pc = .clrDato → s'.main.ctx.estado = 0#32 := fun eq => absurd eq ne
  -- after the acknowledgement the status is clear, and stays so
  have clear (no : pendienteAck s'.pc = false) : s'.rx.regs.regEstado = 0#32 := by
    rw [regs]
    cases b with
    | rdEstado | rdDatos | rdControl1 =>
      rw [sig] at no
      cases no
    | wrAck => rfl
    | rdControl2 | rdEstado2 => exact p.ack (by rw [pc]; rfl) (by rw [pc]; simp)
  have next : turnosIrq s' = accesos b.sig := by
    cases h : b.sig with
    | some c =>
      rw [h] at sig
      exact turnosIrq_some sig
    | none =>
      rw [h] at sig
      rw [turnosIrq_none sig, if_pos (clear (by rw [sig]; rfl))]
      rfl
  refine ⟨⟨inv', fun ne' pc' => ?_, fun _ => ⟨free, ne⟩, fun no _ => clear no, clr⟩, by omega, ?_⟩
  · rw [pc'] at clear
    exact absurd (clear rfl) ne'
  · apply Nat.le_trans (turnosMain_le clr)
    exact Nat.le_of_eq (if_pos (by omega)).symm

/-- A step of the loop, while no note comes. -/
lemma Pronto.bucle (p : Pronto s) (pc : s.pc = none) (inv' : Inv s')
    (regs : s'.rx.regs.regEstado = s.rx.regs.regEstado) (pc' : s'.pc = none)
    (loop : s'.main = Main.sigue s.main)
    (sonido : s'.sonido = if s.main.pc = .codec then ⟨s.main.nota.notavel⟩ else s.sonido) :
    Pronto s' ∧ turnosIrq s' = turnosIrq s ∧
      turnosMain s' ≤ if turnosIrq s = 0 then turnosMain s - 1 else turnosMain s := by
  have irq : turnosIrq s' = turnosIrq s := by rw [turnosIrq_none pc, turnosIrq_none pc', regs]
  have fuera (wait : s.rx.regs.regEstado ≠ 0#32) := by
    refine sigue_fuera (p.fuera ?_) (p.clara wait pc)
    rw [turnosIrq_none pc, if_neg wait]
    simp
  refine ⟨⟨inv', fun ne _ => ?_, fun ne => ?_, fun _ ne => absurd pc' ne, fun eq => ?_⟩, irq, ?_⟩
  · rw [regs] at ne
    rw [loop]
    exact (fuera ne).2
  · rw [irq, turnosIrq_none pc] at ne
    rw [loop]
    exact (fuera fun zero => ne (if_pos zero)).1
  · rw [loop] at eq ⊢
    exact sigue_clrDato eq
  · by_cases zero : turnosIrq s = 0
    · rw [if_pos zero, turnosMain, turnosMain, irq, if_neg (not_not.mpr zero), if_neg (not_not.mpr zero),
        loop, sonido]
      exact resto_sigue p.inv.main p.clrDato s.sonido
    · rw [if_neg zero, turnosMain, turnosMain, irq, if_pos zero]
      exact Nat.le_of_eq (if_pos zero).symm

/-- The cycles without a note. -/
lemma Pronto.callado {a : Option Acceso} {x : Option (BitVec 32 × BitVec 32)} (p : Pronto s)
    (sonido : s'.sonido = if paso s i = some .codec then ⟨s.main.nota.notavel⟩ else s.sonido)
    (c : Ciclo s i none a x s'.rx.regs s'.pc s'.main) :
    Pronto s' ∧ (turnosIrq s' ≤ turnosIrq s ∧ turnosMain s' ≤ turnosMain s) ∧
      (i.turno = .irq → turnosIrq s ≠ 0 → turnosIrq s' < turnosIrq s) ∧
      (i.turno = .main → turnosIrq s = 0 → turnosMain s ≠ 0 → turnosMain s' < turnosMain s) := by
  have inv' : Inv s' := (p.inv.callado (fun h => ⟨(p.entra h).1, fun pc => absurd pc (p.entra h).2.1⟩) c).1
  generalize eq_r : s'.rx.regs = r at c
  generalize eq_pc : s'.pc = pc' at c
  generalize eq_m : s'.main = m at c
  cases c with
  | espera irq loop =>
    have no : paso s i ≠ some .codec := by
      intro eq
      rw [paso, Option.ite_none_right_eq_some] at eq
      exact loop eq.1.1 eq.1.2
    rw [if_neg no] at sonido
    have regs : s'.rx.regs.regEstado = s.rx.regs.regEstado := by
      rw [eq_r]
      rfl
    have turns : turnosIrq s' = turnosIrq s := by rw [turnosIrq, turnosIrq, eq_pc, regs]
    have turns' : turnosMain s' = turnosMain s := by rw [turnosMain, turnosMain, turns, eq_m, sonido]
    refine ⟨?_, ⟨Nat.le_of_eq turns, Nat.le_of_eq turns'⟩, ?_, ?_⟩
    · obtain ⟨-, clara, fuera, ack, clrDato⟩ := p
      rw [← eq_pc, ← eq_m, ← regs, ← turns] at *
      exact ⟨inv', clara, fuera, ack, clrDato⟩
    · intro turn ne
      obtain ⟨pc, low⟩ := irq turn
      rcases p.inv.estado with zero | ⟨on, eq⟩
      · rw [turnosIrq_none pc, if_pos zero] at ne
        exact absurd rfl ne
      · rw [irq_estadoDe eq] at low
        cases low
    · intro turn zero
      obtain ⟨b, pc⟩ := Option.ne_none_iff_exists'.mp (loop turn)
      have one := accesos_sig b
      rw [turnosIrq_some pc] at zero
      omega
  | entra h =>
    obtain ⟨-, ne, seven⟩ := p.entra h
    obtain ⟨turn, -, -⟩ := h
    have six : turnosIrq s' = 6 := turnosIrq_some eq_pc
    obtain ⟨free, -⟩ := p.fuera (by omega)
    refine ⟨⟨inv', ?_, ?_, ?_, ?_⟩, ⟨by omega, ?_⟩, fun _ _ => by omega, ?_⟩
    · rw [eq_pc]
      intro _ h
      cases h
    · rw [eq_m]
      exact fun _ => ⟨free, ne⟩
    · rw [eq_pc]
      intro h
      cases h
    · rw [eq_m]
      exact p.clrDato
    · rw [turnosMain, turnosMain, if_pos (by omega)]
      exact Nat.le_of_eq (if_pos (by omega)).symm
    · rw [turn]
      intro h
      cases h
  | @acceso b turn pc =>
    obtain ⟨p', irq, le⟩ := p.acceso pc inv' eq_r eq_pc eq_m
    refine ⟨p', ⟨by omega, le⟩, fun _ _ => by omega, ?_⟩
    rw [turn]
    intro h
    cases h
  | bucle turn pc =>
    have son : s'.sonido = if s.main.pc = .codec then ⟨s.main.nota.notavel⟩ else s.sonido := by
      have step : paso s i = some s.main.pc := if_pos ⟨turn, pc⟩
      rw [sonido, step]
      simp
    have regs : s'.rx.regs.regEstado = s.rx.regs.regEstado := by
      rw [eq_r]
      rfl
    obtain ⟨p', irq, le⟩ := p.bucle pc inv' regs eq_pc eq_m son
    refine ⟨p', ⟨Nat.le_of_eq irq, ?_⟩, ?_, fun _ zero ne => ?_⟩
    · apply Nat.le_trans le
      split <;> omega
    · rw [turn]
      intro h
      cases h
    · rw [if_pos zero] at le
      omega

/-- A note that comes when nothing is waited for. -/
lemma Pronto.con_nota {e : Midi.NoteEvent} {a : Option Acceso} {x : Option (BitVec 32 × BitVec 32)}
    (p : Pronto s) (calma : Calma s) (c : Ciclo s i (some (C.evento e)) a x s'.rx.regs s'.pc s'.main) :
    Pronto s' := by
  have inv' : Inv s' := (p.inv.con_nota (.inl calma.estado) c).1
  obtain ⟨estado, pc, clara, fuera, -⟩ := calma
  generalize eq_r : s'.rx.regs = r at c
  generalize eq_pc : s'.pc = pc' at c
  generalize eq_m : s'.main = m at c
  cases c with
  | espera _ _ =>
    rw [← eq_pc] at pc
    rw [← eq_m] at clara fuera
    exact ⟨inv', fun _ _ => clara, fun _ => fuera, fun _ ne => absurd pc ne, fun _ => clara⟩
  | entra h =>
    obtain ⟨-, -, irq⟩ := h
    rw [irq_zero estado] at irq
    cases irq
  | acceso _ h => cases pc.symm.trans h
  | bucle _ _ =>
    obtain ⟨fuera', clara'⟩ := sigue_fuera fuera clara
    rw [← eq_m] at clara' fuera'
    exact ⟨inv', fun _ _ => clara', fun _ => fuera', fun _ ne => absurd eq_pc ne, fun _ => clara'⟩

variable (C) in
/-- What a note waits for, while no other one comes. -/
lemma pronto_needs : Needs C.sistema In.turno (fun s i => Pronto s ∧ ¬ C.sistema.out s i ≠ none)
    faltan := by
  have step (s : St) (i : In) (ok : Pronto s ∧ ¬ C.sistema.out s i ≠ none) := by
    obtain ⟨p, quiet⟩ := ok
    have c := Sistema.ciclo (C := C) s i
    rw [not_not.mp quiet, Option.map_none] at c
    exact (p.callado (sonido_next s i) c).2
  exact .phases (fun s i ok => (step s i ok).1) (fun s i ok => (step s i ok).2.1) fun s i ok => (step s i ok).2.2

/-- The turns that a note needs. -/
def turnosNota : List Turno := List.replicate 7 .irq ++ List.replicate 19 .main

/-- What is waited for is part of the turns of a note. -/
lemma Pronto.bound (p : Pronto s) : (faltan s).Sublist turnosNota := by
  have irq : turnosIrq s ≤ 7 := by
    cases pc : s.pc with
    | none =>
      rw [turnosIrq_none pc]
      split <;> omega
    | some a =>
      rw [turnosIrq_some pc]
      cases a <;> simp [accesos]
  apply List.Sublist.append
  · exact List.replicate_sublist_replicate _ |>.mpr irq
  · exact List.replicate_sublist_replicate _ |>.mpr (turnosMain_le p.clrDato)

/-- Without a turn to wait for, nothing is waited for. -/
lemma Pronto.calma_nil (p : Pronto s) (nil : faltan s = []) : Calma s := by
  obtain ⟨irq, loop⟩ := List.append_eq_nil_iff.mp nil
  exact p.calma (List.replicate_eq_nil_iff _ |>.mp irq) (List.replicate_eq_nil_iff _ |>.mp loop)

/-- Every edge keeps what the states have in common, if notes come only when nothing is waited for. -/
lemma Pronto.next (p : Pronto s) (i : In) (calma : C.sistema.out s i ≠ none → Calma s) :
    Pronto (C.sistema.next s i) := by
  have c := Sistema.ciclo (C := C) s i
  generalize C.sistema.out s i = ev at c calma
  cases ev with
  | none => exact (p.callado (sonido_next s i) c).1
  | some e => exact p.con_nota (calma (by simp)) c

/-- The state after reset is such a one. -/
lemma pronto_reset (codeReg : BitVec 4) (d p t : BitVec 32) : Pronto (reset codeReg d p t) :=
  ⟨inv_reset codeReg d p t, fun ne => absurd rfl ne, fun ne => absurd rfl ne, fun _ ne => absurd rfl ne, nofun⟩

/-! ## The runs -/

variable {w : ℕ → In} {K : ℕ}

/-- The schedule serves a note within any `K` cycles. -/
def Ventanas (w : ℕ → In) (K : ℕ) : Prop := ∀ m, turnosNota.Sublist (kinds In.turno w m K)

section Runs
variable (C) (codeReg : BitVec 4) (d p t : BitVec 32)

/-- The invariant of a punctual run: when a note comes, and `K` cycles after each one, nothing is waited for. -/
lemma puntual_run (corto : K < 30444) (ventanas : Ventanas w K) (n : ℕ) :
    Pronto (C.en (reset codeReg d p t) w n) ∧
      (C.nota (reset codeReg d p t) w n ≠ none → Calma (C.en (reset codeReg d p t) w n)) ∧
      (K ≤ n → (∀ x < n, C.nota (reset codeReg d p t) w x ≠ none → x + K < n) →
        Calma (C.en (reset codeReg d p t) w n)) := by
  have note (n : ℕ) : C.nota (reset codeReg d p t) w n = Codificador.events codeReg (fun t => (w t).rxMidi) n :=
    C.nota_codificador _ w n
  obtain ⟨pronto, event, calm⟩ := (pronto_needs C).punctual (E := fun s i => C.sistema.out s i ≠ none)
    (fun _ p => p.bound) ventanas
    (fun n n' lt h h' => by
      have far := Codificador.notas_apart lt (by rw [← note n]; exact h) (by rw [← note n']; exact h')
      omega)
    (fun n h => by
      have far := Codificador.notas_first (by rw [← note n]; exact h)
      omega)
    (pronto_reset codeReg d p t) (fun s i p free => p.next i fun event => p.calma_nil (free event)) n
  exact ⟨pronto, fun h => pronto.calma_nil (event h), fun le quiet => pronto.calma_nil (calm le quiet)⟩

/-- Every cycle is safe. -/
lemma puntual_seguro (corto : K < 30444) (ventanas : Ventanas w K) (n : ℕ) :
    Seguro C (C.en (reset codeReg d p t) w n) (w n) := by
  obtain ⟨pronto, calma, -⟩ := puntual_run C codeReg d p t corto ventanas n
  refine ⟨fun e h => .inl (calma ?_).estado, fun h => ?_⟩
  · change C.sistema.out _ _ ≠ none
    rw [h]
    exact nofun
  · obtain ⟨clara, ne, -⟩ := pronto.entra h
    exact ⟨clara, fun pc => absurd pc ne⟩

/-- When nothing is waited for, nothing is held. -/
lemma Calma.debe_nil (c : Calma s) (inv : Main.Inv s.main) : debe s = [] := by
  rw [debe_ack rfl c.pc, debe_clara inv c.clara, pendiente_zero c.estado]
  rfl

/-- With nothing to wait for, all notes so far have been applied. -/
lemma puntual_aplicados (corto : K < 30444) (ventanas : Ventanas w K) {n : ℕ}
    (c : Calma (C.en (reset codeReg d p t) w n)) :
    log (C.aplicados (reset codeReg d p t) w) n = log (C.avisos (reset codeReg d p t) w) n := by
  have pronto := (puntual_run C codeReg d p t corto ventanas n).1
  rw [← conserva_run (inv_reset codeReg d p t) (debe_reset codeReg d p t)
    (puntual_seguro C codeReg d p t corto ventanas) n, c.debe_nil pronto.inv.main, List.append_nil]

/-- And the codec has the `notavel` of these. -/
lemma puntual_codec (corto : K < 30444) (ventanas : Ventanas w K) {n : ℕ} (le : K ≤ n)
    (quiet : ∀ x < n, C.nota (reset codeReg d p t) w x ≠ none → x + K < n) :
    (C.en (reset codeReg d p t) w n).sonido = ⟨(C.en (reset codeReg d p t) w n).main.nota.notavel⟩ ∧
      (C.en (reset codeReg d p t) w n).main.nota =
        (Nota.inicial p t).aplicaTodos (log (C.avisos (reset codeReg d p t) w) n) := by
  have c := (puntual_run C codeReg d p t corto ventanas n).2.2 le quiet
  refine ⟨c.codec, ?_⟩
  rw [nota_run, puntual_aplicados C codeReg d p t corto ventanas c]
  rfl

/-- With a punctual processor, whatever is on the line: the notes that `codificador` pulses are applied in
order, each within `K` cycles, and after `K` cycles without a note the codec has the `notavel` of all notes
so far. -/
theorem puntual (corto : K < 30444) (ventanas : Ventanas w K) (n : ℕ) :
    log (C.aplicados (reset codeReg d p t) w) n <+: log (C.avisos (reset codeReg d p t) w) n ∧
      log (C.avisos (reset codeReg d p t) w) n <+: log (C.aplicados (reset codeReg d p t) w) (n + K) ∧
      (K ≤ n → (∀ x < n, C.nota (reset codeReg d p t) w x ≠ none → x + K < n) →
        (C.en (reset codeReg d p t) w n).sonido = ⟨(C.en (reset codeReg d p t) w n).main.nota.notavel⟩ ∧
        (C.en (reset codeReg d p t) w n).main.nota =
          (Nota.inicial p t).aplicaTodos (log (C.avisos (reset codeReg d p t) w) n)) := by
  have run (n : ℕ) := puntual_run C codeReg d p t corto ventanas n
  refine ⟨?_, ?_, puntual_codec C codeReg d p t corto ventanas⟩
  · rw [← conserva_run (inv_reset codeReg d p t) (debe_reset codeReg d p t)
      (puntual_seguro C codeReg d p t corto ventanas) n]
    exact List.prefix_append _ _
  · by_cases late : ∃ x, n ≤ x ∧ x ≤ n + K ∧ Calma (C.en (reset codeReg d p t) w x)
    · obtain ⟨x, lo, hi, c⟩ := late
      apply List.IsPrefix.trans
      · exact log_prefix _ lo
      rw [← puntual_aplicados C codeReg d p t corto ventanas c]
      exact log_prefix _ hi
    · refine absurd ⟨n + K, by omega, Nat.le_refl _, (run (n + K)).2.2 (by omega) fun x lt h => ?_⟩ late
      by_contra near
      exact late ⟨x, by omega, by omega, (run x).2.1 h⟩

end Runs

/-- The turns that a note needs, again and again. -/
def ritmo (t : ℕ) : Turno := if t % 26 < 7 then .irq else .main

/-- The processor that takes its turns in a fixed order. -/
def alterna (line : ℕ → Bool) (t : ℕ) : In := ⟨line t, ritmo t⟩

/-- The processor that alternates has the turns of a note within 52 cycles. -/
lemma alterna_ventanas (line : ℕ → Bool) : Ventanas (alterna line) 52 := by
  intro m
  have windows : ∀ r < 26, turnosNota.Sublist (kinds id ritmo r 52) := by decide
  have period (t : ℕ) : id (ritmo (t + 26)) = id (ritmo t) := by
    rw [ritmo, ritmo, Nat.add_mod_right]
  have id_turno := kinds_id In.turno (alterna line) m 52
  rw [show (fun t => (alterna line t).turno) = ritmo from rfl, kinds_mod period] at id_turno
  rw [id_turno]
  exact windows (m % 26) (Nat.mod_lt m (by decide))

/-- A Note On of key 60 with velocity 100. -/
theorem puntual_una :
    log ((Cableado.actual ⟨false, false⟩).avisos (reset 0#4 0#32 0#32 0#32)
        (alterna fun x => (pulsada x).rxMidi)) 48010 <+:
      log ((Cableado.actual ⟨false, false⟩).aplicados (reset 0#4 0#32 0#32 0#32)
        (alterna fun x => (pulsada x).rxMidi)) (48010 + 52) :=
  (puntual (.actual ⟨false, false⟩) 0#4 0#32 0#32 0#32 (by decide)
    (alterna_ventanas fun x => (pulsada x).rxMidi) 48010).2.1

end Sistema
