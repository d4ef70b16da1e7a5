import TecMidi.System.Puntual

/-!
# Every note once

Without any bound on the time between turns. If all cycles are safe, what the loop applies is what has been
pulsed, in order, each note with its own status and data (`entrega_orden`). If moreover the processor goes on
giving turns to both the handler and the loop, nothing is left behind (`entrega_todo`): `faltaIrq` and
`faltaMain` are the turns until the next note is applied, and `espera_needs` says that they serve it.
-/

namespace Sistema
open Sync AvalonRx Irqhandler

variable {C : Cableado} {s : St} {i : In}

/-! ## The turns until the next note is applied -/

/-- The turns of the handler that the next note waits for. -/
def faltaIrq (pc : Option Acceso) (m : Main.St) : ℕ :=
  accesos pc + if pendienteAck pc = false ∧ Main.debe m = [] then 7 else 0

/-- The turns of the loop that it waits for after that. -/
def faltaMain (pc : Option Acceso) (m : Main.St) : ℕ :=
  if pc = none ∧ Main.debe m ≠ [] then Main.espera m else 13

/-- The cycles until the next note is applied. -/
structure Espera (C : Cableado) (s : St) (i : In) : Prop where
  inv : Inv s
  seguro : Seguro C s i
  debe : debe s ≠ []
  aplicado : aplicado s i = none

/-- The loop is never further than 13 steps from applying a note. -/
lemma espera_le (m : Main.St) : Main.espera m ≤ 13 := by
  obtain ⟨ctx, pc, rDato, nota⟩ := m
  cases pc <;> simp [Main.espera]

/-- No more than 13 turns of the loop are waited for. -/
lemma faltaMain_le (pc : Option Acceso) (m : Main.St) : faltaMain pc m ≤ 13 := by
  rw [faltaMain]
  split
  · exact espera_le m
  · exact Nat.le_refl 13

/-- An access of the handler does not change what the note waits for otherwise. -/
lemma falta_acceso {a : Acceso} {m m' : Main.St}
    (same : pendienteAck a.sig = false → (Main.debe m' = [] → pendienteAck (some a) = false ∧ Main.debe m = [])) :
    faltaIrq a.sig m' < faltaIrq (some a) m ∧ faltaMain a.sig m' ≤ faltaMain (some a) m := by
  have one := accesos_sig a
  constructor
  · rw [faltaIrq, faltaIrq]
    by_cases wait : pendienteAck a.sig = false ∧ Main.debe m' = []
    · rw [if_pos wait, if_pos (same wait.1 wait.2)]
      omega
    · rw [if_neg wait]
      omega
  · exact Nat.le_trans (faltaMain_le _ _) (Nat.le_of_eq (if_neg (by simp)).symm)

/-- A cycle of the wait. -/
lemma falta_ciclo {ev : Option Evento} {a : Option Acceso} {r : Regs} {pc : Option Acceso} {m : Main.St}
    (inv : Inv s) (owed : debe s ≠ []) (entra : Entra s i → s.main.ctx.estado = 0#32)
    (c : Ciclo s i ev a none r pc m) :
    (faltaIrq pc m ≤ faltaIrq s.pc s.main ∧ faltaMain pc m ≤ faltaMain s.pc s.main) ∧
      (i.turno = .irq → faltaIrq s.pc s.main ≠ 0 → faltaIrq pc m < faltaIrq s.pc s.main) ∧
      (i.turno = .main → faltaIrq s.pc s.main = 0 → faltaMain s.pc s.main ≠ 0 →
        faltaMain pc m < faltaMain s.pc s.main) := by
  generalize hp : (none : Option (BitVec 32 × BitVec 32)) = p at c
  cases c with
  | espera irq loop =>
    refine ⟨⟨Nat.le_refl _, Nat.le_refl _⟩, fun turn wait => absurd ?_ owed, fun turn zero => ?_⟩
    · obtain ⟨pc, low⟩ := irq turn
      have nil : Main.debe s.main = [] := by
        by_contra ne
        exact wait (by simp [faltaIrq, pc, accesos, ne])
      rw [debe_ack rfl pc, nil, pendiente, low]
      rfl
    · obtain ⟨b, pc⟩ := Option.ne_none_iff_exists'.mp (loop turn)
      have one := accesos_sig b
      rw [faltaIrq, pc] at zero
      omega
  | entra h =>
    have nil := debe_clara inv.main (entra h)
    obtain ⟨turn, pc, -⟩ := h
    simp [faltaIrq, faltaMain, pc, nil, accesos, pendienteAck, turn]
  | @acceso b turn pc =>
    have fewer : faltaIrq b.sig { s.main with ctx := b.guarda (s.rx.regs.rdData b.bus.addr) s.main.ctx } <
          faltaIrq (some b) s.main ∧
        faltaMain b.sig { s.main with ctx := b.guarda (s.rx.regs.rdData b.bus.addr) s.main.ctx } ≤
          faltaMain (some b) s.main := by
      apply falta_acceso
      intro after nil
      cases b with
      | rdEstado | rdDatos | rdControl1 => cases after
      | wrAck =>
        obtain ⟨rx, pc', main, sonido⟩ := s
        obtain rfl : pc' = _ := pc
        exact absurd nil owed
      | rdControl2 | rdEstado2 => exact ⟨rfl, (debe_control s.main _ _ _).symm.trans nil⟩
    rw [pc]
    obtain ⟨lt, le⟩ := fewer
    refine ⟨⟨Nat.le_of_lt lt, le⟩, fun _ _ => lt, fun turn' => ?_⟩
    cases turn.symm.trans turn'
  | bucle turn pc =>
    have keep := Main.main_owed.keep s.main
    rw [← hp] at keep
    have same : Main.debe (Main.sigue s.main) = Main.debe s.main := keep
    have irq : faltaIrq none (Main.sigue s.main) = faltaIrq s.pc s.main := by rw [faltaIrq, faltaIrq, same, pc]
    refine ⟨⟨Nat.le_of_eq irq, ?_⟩, fun turn' => ?_, fun _ zero _ => ?_⟩
    · by_cases nil : Main.debe s.main = []
      · exact Nat.le_of_eq (by simp [faltaMain, same, nil])
      · have lt : Main.espera (Main.sigue s.main) < Main.espera s.main := Main.main_owed.progress s.main nil
        rw [faltaMain, faltaMain, same, if_pos ⟨rfl, nil⟩, if_pos ⟨pc, nil⟩]
        exact Nat.le_of_lt lt
    · cases turn.symm.trans turn'
    · have ne : Main.debe s.main ≠ [] := by
        intro nil
        simp [faltaIrq, pc, nil, pendienteAck] at zero
      have lt : Main.espera (Main.sigue s.main) < Main.espera s.main := Main.main_owed.progress s.main ne
      rw [faltaMain, faltaMain, same, if_pos ⟨rfl, ne⟩, if_pos ⟨pc, ne⟩]
      exact lt

/-- The next note waits for some turns of the handler and, after these, some of the loop. -/
theorem espera_needs : Needs C.sistema In.turno (Espera C) fun s =>
    List.replicate (faltaIrq s.pc s.main) .irq ++ List.replicate (faltaMain s.pc s.main) .main := by
  have falta (s : St) (i : In) (wait : Espera C s i) := by
    obtain ⟨inv, seguro, owed, none_⟩ := wait
    have c := Sistema.ciclo (C := C) s i
    rw [none_] at c
    exact falta_ciclo inv owed (fun h => (seguro.entra h).1) c
  exact .phases (fun s i wait => (falta s i wait).1) (fun s i wait => (falta s i wait).2.1)
    fun s i wait => (falta s i wait).2.2

/-- A note that waits is not applied before its turns have come. -/
lemma falta_ne (s : St) :
    List.replicate (faltaIrq s.pc s.main) Turno.irq ++ List.replicate (faltaMain s.pc s.main) .main ≠ [] := by
  intro nil
  obtain ⟨irq, loop⟩ := List.append_eq_nil_iff.mp nil
  have irq0 : faltaIrq s.pc s.main = 0 := List.replicate_eq_nil_iff _ |>.mp irq
  have loop0 : faltaMain s.pc s.main = 0 := List.replicate_eq_nil_iff _ |>.mp loop
  obtain ⟨pc, ne⟩ : s.pc = none ∧ Main.debe s.main ≠ [] := by
    by_contra no
    rw [faltaMain, if_neg no] at loop0
    cases loop0
  rw [faltaMain, if_pos ⟨pc, ne⟩] at loop0
  have lt := Main.main_owed.progress s.main ne
  omega

/-! ## The runs -/

variable {w : ℕ → In}

/-- While something is held and the turns come, something is applied. -/
lemma aplica_run (inv : Inv s) (seguro : ∀ t, Seguro C (C.en s w t) (w t))
    (irq : Fair In.turno w .irq) (loop : Fair In.turno w .main) (m : ℕ) (owed : debe (C.en s w m) ≠ []) :
    ∃ n, m ≤ n ∧ C.aplicados s w n ≠ none := by
  by_contra never
  have none_ (n : ℕ) (le : m ≤ n) : aplicado (C.en s w n) (w n) = none := by
    by_contra some
    exact never ⟨n, le, some⟩
  have held (n : ℕ) (le : m ≤ n) : debe (C.en s w n) ≠ [] := by
    refine Machine.run_stays (P := fun s => Inv s ∧ debe s ≠ []) le ⟨inv_run inv seguro m, owed⟩ ?_ |>.2
    intro t lo hi ⟨inv', ne⟩
    obtain ⟨next, eq⟩ := inv'.ciclo (seguro t)
    refine ⟨next, fun nil => ne ?_⟩
    rw [show aplicado (C.sistema.run s w t) (w t) = none from none_ t lo, nil] at eq
    exact (List.append_eq_nil_iff.mp eq.symm).1
  have fair : ∀ k ∈ List.replicate (faltaIrq (C.en s w m).pc (C.en s w m).main) Turno.irq ++
      List.replicate (faltaMain (C.en s w m).pc (C.en s w m).main) .main, Fair In.turno w k := by
    intro k mem
    rcases List.mem_append.mp mem with mem | mem
    · rw [List.eq_of_mem_replicate mem]
      exact irq
    · rw [List.eq_of_mem_replicate mem]
      exact loop
  obtain ⟨n, window⟩ := Fair.window fair m
  have nil := espera_needs.served (fun t lo _ => ⟨inv_run inv seguro t, seguro t, held t lo, none_ t lo⟩) window
  exact falta_ne _ nil

/-- Whatever the line does and however the turns fall, if all cycles are safe the loop applies the notes
that `codificador` pulses in their order, none twice and each with its own status and data. -/
theorem entrega_orden (codeReg : BitVec 4) (d p t : BitVec 32)
    (seguro : ∀ n, Seguro C (C.en (reset codeReg d p t) w n) (w n)) (n : ℕ) :
    log (C.aplicados (reset codeReg d p t) w) n <+: log (C.avisos (reset codeReg d p t) w) n ∧
      (C.en (reset codeReg d p t) w n).main.nota =
        (Nota.inicial p t).aplicaTodos (log (C.aplicados (reset codeReg d p t) w) n) := by
  refine ⟨?_, nota_run _ n⟩
  rw [← conserva_run (inv_reset codeReg d p t) (debe_reset codeReg d p t) seguro n]
  exact List.prefix_append _ _

/-- The processor takes turns, and a Note On of key 60 with velocity 100 comes. -/
theorem entrega_orden_alterna :
    log ((Cableado.actual ⟨false, false⟩).aplicados (reset 0#4 0#32 0#32 0#32)
        (alterna fun x => (pulsada x).rxMidi)) 50000 <+:
      log ((Cableado.actual ⟨false, false⟩).avisos (reset 0#4 0#32 0#32 0#32)
        (alterna fun x => (pulsada x).rxMidi)) 50000 :=
  (entrega_orden 0#4 0#32 0#32 0#32
    (puntual_seguro _ _ _ _ _ (by decide) (alterna_ventanas fun x => (pulsada x).rxMidi)) 50000).1

/-- And if the processor goes on giving turns to both, all of them. -/
theorem entrega_todo (codeReg : BitVec 4) (d p t : BitVec 32)
    (seguro : ∀ n, Seguro C (C.en (reset codeReg d p t) w n) (w n)) (irq : Fair In.turno w .irq)
    (loop : Fair In.turno w .main) (n : ℕ) :
    ∃ m, log (C.avisos (reset codeReg d p t) w) n <+: log (C.aplicados (reset codeReg d p t) w) m := by
  have inv := inv_reset codeReg d p t
  exact log_served _ (conserva_run inv (debe_reset codeReg d p t) seguro) (aplica_run inv seguro irq loop) n

/-- With the turns of `alterna` both go on for ever. -/
lemma alterna_fair (line : ℕ → Bool) :
    Fair In.turno (alterna line) .irq ∧ Fair In.turno (alterna line) .main := by
  refine ⟨fun m => ⟨26 * m, by omega, ?_⟩, fun m => ⟨26 * m + 7, by omega, ?_⟩⟩
  · exact if_pos (by omega)
  · exact if_neg (by omega)

/-- The same note is applied. -/
theorem entrega_todo_alterna : ∃ m,
    log ((Cableado.actual ⟨false, false⟩).avisos (reset 0#4 0#32 0#32 0#32)
        (alterna fun x => (pulsada x).rxMidi)) 48010 <+:
      log ((Cableado.actual ⟨false, false⟩).aplicados (reset 0#4 0#32 0#32 0#32)
        (alterna fun x => (pulsada x).rxMidi)) m :=
  entrega_todo 0#4 0#32 0#32 0#32
    (puntual_seguro _ _ _ _ _ (by decide) (alterna_ventanas fun x => (pulsada x).rxMidi))
    (alterna_fair fun x => (pulsada x).rxMidi).1 (alterna_fair fun x => (pulsada x).rxMidi).2 48010

end Sistema
