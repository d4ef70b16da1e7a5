import TecMidi.Bus.AvalonSound
import TecMidi.Bus.Cableado
import TecMidi.Soft.Main

/-!
# The system: from the MIDI line to the codec

The processor between the two devices. In every cycle the line may have any value and the processor may
make one access: the next one of `irqhandler`, which interrupts the loop of `main` while `irq = 1`, or,
if the handler is not running, the next one of the loop.

`sistema_conserva_iff` follows a note from the pulse of `codificador` to the inputs of `SoundModule`.
-/

namespace Sistema
open Sync AvalonRx Irqhandler

/-- The two devices, and between them the handler (its next access, if it is running) and the loop. -/
structure St where
  rx : AvalonRx.St
  pc : Option Acceso
  main : Main.St
  sonido : AvalonSound
deriving DecidableEq, Repr

/-- What the processor does in a cycle. -/
inductive Turno where
  | nada | irq | main
deriving DecidableEq, Repr

/-- The MIDI line, and the turn of the processor. -/
structure In where
  rxMidi : Bool
  turno : Turno
deriving DecidableEq, Repr

/-- The access of the handler made in a cycle. -/
def acceso (s : St) (i : In) : Option Acceso := if i.turno = .irq then s.pc else none

/-- The step of the loop made in a cycle. -/
def paso (s : St) (i : In) : Option Main.Pc :=
  if i.turno = .main ∧ s.pc = none then some s.main.pc else none

/-- The bus of `avalon_RxDecMIDI`. -/
def busRx (s : St) (i : In) : Bus :=
  match acceso s i with
  | some a => a.bus
  | none => .idle

/-- The bus of `avalon_SoundMIDI`. -/
def busSonido (s : St) (i : In) : Bus :=
  if paso s i = some .codec then .write AvalonSound.regDatosAddress s.main.nota.notavel else .idle

/-- The next access of the handler. -/
def pcSig (s : St) (i : In) : Option Acceso :=
  if i.turno = .irq then
    match s.pc with
    | none => if s.rx.regs.irq = true then some .rdEstado else none
    | some a => a.sig
  else s.pc

/-- The memory of the program: the handler writes the context, and the loop the context and its variables. -/
def mainSig (s : St) (i : In) : Main.St :=
  match acceso s i, paso s i with
  | some a, _ => { s.main with ctx := a.guarda (s.rx.regs.rdData a.bus.addr) s.main.ctx }
  | none, some _ => Main.sigue s.main
  | none, none => s.main

end Sistema

namespace AvalonRx.Cableado
open Sync Sistema

/-- The system with a wiring on its clock; the output is the note that `codificador` pulses. -/
def sistema (C : Cableado) : Machine Sistema.St Sistema.In (Option Midi.NoteEvent) where
  next s i :=
    { rx := ⟨Codificador.codificador.next s.rx.codificador i.rxMidi,
        s.rx.regs.clk (C.puertos (Codificador.codificador.out s.rx.codificador i.rxMidi)) (busRx s i)⟩
      pc := pcSig s i
      main := mainSig s i
      sonido := s.sonido.clk (busSonido s i) }
  out s i := (Codificador.codificador.out s.rx.codificador i.rxMidi).event?

variable (C : Cableado)

/-- The note pulsed in a cycle. -/
abbrev nota (s : Sistema.St) (w : ℕ → Sistema.In) (t : ℕ) : Option Midi.NoteEvent := C.sistema.wave s w t

/-- The state in a cycle. -/
abbrev en (s : Sistema.St) (w : ℕ → Sistema.In) (t : ℕ) : Sistema.St := C.sistema.run s w t

/-- Whatever the processor does, the notes are those that `codificador` reads from the line. -/
lemma nota_codificador (s : Sistema.St) (w : ℕ → Sistema.In) (t : ℕ) :
    C.nota s w t = (Codificador.codificador.wave s.rx.codificador (fun t => (w t).rxMidi) t).event? := by
  have same : (C.en s w t).rx.codificador =
      Codificador.codificador.run s.rx.codificador (fun t => (w t).rxMidi) t := by
    induction t with
    | zero => rfl
    | succ t ih =>
      rw [Machine.run_succ, ← ih]
      rfl
  change (Codificador.codificador.out (C.en s w t).rx.codificador _).event? = _
  rw [same]
  rfl

end AvalonRx.Cableado

namespace Sistema
open Sync AvalonRx Irqhandler

variable (u : Undriven)

/-- The system with the wiring that is listed. -/
def sistema : Machine St In (Option Midi.NoteEvent) := (Cableado.actual u).sistema

/-- Its devices are `avalon_RxDecMIDI` and `avalon_SoundMIDI`. -/
lemma next_sistema (s : St) (i : In) : (sistema u).next s i =
    { rx := (avalonRx u).next s.rx ⟨busRx s i, i.rxMidi⟩
      pc := pcSig s i
      main := mainSig s i
      sonido := s.sonido.clk (busSonido s i) } := rfl

/-- After reset, with `main` at the start of its loop. -/
def reset (codeReg : BitVec 4) (rDato primeraTecla teclaActual : BitVec 32) : St where
  rx := AvalonRx.reset codeReg
  pc := none
  main := Main.inicial rDato primeraTecla teclaActual
  sonido := .reset

/-! ## The steps -/

variable {u} {s : St} {i : In}

/-- What a cycle does to the memory of the program. -/
lemma main_cases (s : St) (i : In) :
    (∃ a : Acceso, mainSig s i = { s.main with ctx := a.guarda (s.rx.regs.rdData a.bus.addr) s.main.ctx } ∧
      paso s i = none) ∨
    (paso s i = some s.main.pc ∧ mainSig s i = Main.sigue s.main) ∨
    (paso s i = none ∧ mainSig s i = s.main) := by
  obtain ⟨rx, pc, main, sonido⟩ := s
  obtain ⟨line, turno⟩ := i
  cases pc with
  | none =>
    cases turno with
    | main => exact .inr (.inl ⟨rfl, rfl⟩)
    | nada | irq => exact .inr (.inr ⟨rfl, rfl⟩)
  | some a =>
    cases turno with
    | irq => exact .inl ⟨a, rfl, rfl⟩
    | nada | main => exact .inr (.inr ⟨rfl, rfl⟩)

/-- When the handler reads `RegDatos`, the context takes it. -/
lemma dato_lee (h : acceso s i = some .rdDatos) : (mainSig s i).ctx.dato = s.rx.regs.regDatos := by
  rw [mainSig, h]
  rfl

/-- The step of the loop made in a cycle is that of its counter. -/
lemma paso_pc {pc : Main.Pc} (h : paso s i = some pc) :
    s.main.pc = pc ∧ mainSig s i = Main.sigue s.main := by
  rcases main_cases s i with ⟨a, -, no⟩ | ⟨eq, sig⟩ | ⟨no, -⟩
  · cases h.symm.trans no
  · exact ⟨Option.some.inj (eq.symm.trans h), sig⟩
  · cases h.symm.trans no

/-- The data of the context stay those of the register unless the loop clears them. -/
lemma dato_stays (h : paso s i ≠ some .clrDato) (same : s.main.ctx.dato = s.rx.regs.regDatos) :
    (mainSig s i).ctx.dato = s.rx.regs.regDatos := by
  rcases main_cases s i with ⟨a, sig, -⟩ | ⟨eq, sig⟩ | ⟨-, sig⟩
  · rw [sig]
    cases a with
    | rdDatos => rfl
    | _ => exact same
  · rw [sig]
    rw [eq] at h
    cases hpc : s.main.pc with
    | clrDato => exact absurd (congrArg some hpc) h
    | _ => simpa [Main.sigue, hpc] using same
  · rw [sig]
    exact same

/-- Only the step that reads the data changes `RDato`. -/
lemma rDato_stays (h : paso s i ≠ some .rdDato) : (mainSig s i).rDato = s.main.rDato := by
  rcases main_cases s i with ⟨a, sig, -⟩ | ⟨eq, sig⟩ | ⟨-, sig⟩
  · rw [sig]
  · rw [sig]
    rw [eq] at h
    cases hpc : s.main.pc with
    | rdDato => exact absurd (congrArg some hpc) h
    | _ => simp [Main.sigue, hpc]
  · rw [sig]

/-- Only the step that tests the status changes the variables of the note. -/
lemma nota_stays (h : paso s i ≠ some .testOn) : (mainSig s i).nota = s.main.nota := by
  rcases main_cases s i with ⟨a, sig, -⟩ | ⟨eq, sig⟩ | ⟨-, sig⟩
  · rw [sig]
  · rw [sig]
    rw [eq] at h
    cases hpc : s.main.pc with
    | testOn => exact absurd (congrArg some hpc) h
    | _ => simp [Main.sigue, hpc]
  · rw [sig]

/-! ## The way of a note -/

section Runs
variable (u) (s) (w : ℕ → In)

/-- The note pulsed in a cycle. -/
abbrev nota (t : ℕ) : Option Midi.NoteEvent := (sistema u).wave s w t

/-- The state in a cycle. -/
abbrev en (t : ℕ) : St := (sistema u).run s w t

/-- The loop handles the Note On pulsed in cycle `t`, and no other note intervenes until it writes
`notavel` in cycle `te`: the handler reads the register in cycle `th`, the loop reads what it has stored
in cycle `td` and applies it as a Note On in cycle `ta`. -/
structure Camino (t th td ta te : ℕ) : Prop where
  capta : t < th ∧ acceso (en u s w th) (w th) = some .rdDatos
  lee : th < td ∧ paso (en u s w td) (w td) = some .rdDato ∧
    ∀ x, th < x → x < td → paso (en u s w x) (w x) ≠ some .clrDato
  aplica : td < ta ∧ paso (en u s w ta) (w ta) = some .testOn ∧
    (en u s w ta).main.ctx.estado = 0x5#32 ∧
    ∀ x, td < x → x < ta → paso (en u s w x) (w x) ≠ some .rdDato
  escribe : ta < te ∧ paso (en u s w te) (w te) = some .codec ∧
    ∀ x, ta < x → x < te → paso (en u s w x) (w x) ≠ some .testOn
  solo : ∀ x, t < x → x ≤ te → nota u s w x = none

/-- What is asked of the note `e` pulsed in cycle `t`: the documented format of `RegDatos`, and, if the
loop handles it as a Note On, its key and velocity at the inputs of `SoundModule`. -/
structure Conserva (t : ℕ) (e : Midi.NoteEvent) : Prop where
  latched : (en u s w (t + 1)).rx.regs.regDatos = 0x0000#16 ++ ((0#1 ++ e.vel) ++ (0#1 ++ e.key))
  sounds : e.on = true → ∀ th td ta te, Camino u s w t th td ta te →
    (en u s w (te + 1)).sonido.enable = true ∧ (en u s w (te + 1)).sonido.key = e.key ∧
      (en u s w (te + 1)).sonido.vel = e.vel

end Runs

variable {w : ℕ → In} {t th td ta te : ℕ} {e : Midi.NoteEvent}

/-- Whatever the processor does, the notes are those that `codificador` reads from the line. -/
lemma nota_codificador (t : ℕ) :
    nota u s w t = (Codificador.codificador.wave s.rx.codificador (fun t => (w t).rxMidi) t).event? :=
  (Cableado.actual u).nota_codificador s w t

/-- A note is in the register from the cycle after it until the next one. -/
lemma regDatos_run (h : nota u s w t = some e) {x : ℕ} (lt : t < x)
    (quiet : ∀ y, t < y → y < x → nota u s w y = none) :
    (en u s w x).rx.regs.regDatos = datos u e := by
  refine Machine.run_stays (P := fun s : St => s.rx.regs.regDatos = datos u e) lt ?_ ?_
  · rw [Machine.run_succ, next_sistema]
    exact regDatos_event u h _ _
  · intro y lo hi same
    rw [next_sistema]
    exact (regDatos_quiet u (quiet y lo hi) _ _).trans same

/-- The word that the loop writes for a note. -/
lemma Camino.word (c : Camino u s w t th td ta te) (h : nota u s w t = some e) :
    (en u s w (te + 1)).sonido = ⟨datos u e ||| 0x10000#32⟩ := by
  obtain ⟨⟨lt_h, capta⟩, ⟨lt_d, lee, noClr⟩, ⟨lt_a, aplica, on, noRd⟩, ⟨lt_e, escribe, noOn⟩, solo⟩ := c
  have reg {x : ℕ} (lo : t < x) (hi : x ≤ te) : (en u s w x).rx.regs.regDatos = datos u e :=
    regDatos_run h lo fun y ly hy => solo y ly (by omega)
  -- the context holds the note from `th` to `td`, `RDato` from `td` to `ta`, `notavel` from `ta` to `te`
  have ctx : (en u s w td).main.ctx.dato = datos u e := by
    refine Machine.run_stays (P := fun s : St => s.main.ctx.dato = datos u e) lt_d ?_ ?_
    · exact (dato_lee capta).trans (reg lt_h (by omega))
    · intro y lo hi same
      have regs := reg (x := y) (by omega) (by omega)
      exact (dato_stays (noClr y lo hi) (same.trans regs.symm)).trans regs
  have rDato : (en u s w ta).main.rDato = datos u e := by
    refine Machine.run_stays (P := fun s : St => s.main.rDato = datos u e) lt_a ?_ ?_
    · obtain ⟨pc, sig⟩ := paso_pc lee
      change (mainSig _ _).rDato = _
      rw [sig, Main.sigue, pc]
      exact ctx
    · intro y lo hi same
      exact (rDato_stays (noRd y lo hi)).trans same
  have notavel : (en u s w te).main.nota.notavel = datos u e ||| 0x10000#32 := by
    refine Machine.run_stays (P := fun s : St => s.main.nota.notavel = datos u e ||| 0x10000#32) lt_e ?_ ?_
    · obtain ⟨pc, sig⟩ := paso_pc aplica
      change (mainSig _ _).nota.notavel = _
      rw [sig, Main.sigue, pc]
      change ((en u s w ta).main.nota.aplica (en u s w ta).main.ctx.estado (en u s w ta).main.rDato).notavel = _
      rw [on, rDato]
      rfl
    · intro y lo hi same
      exact (congrArg Nota.notavel (nota_stays (noOn y lo hi))).trans same
  change AvalonSound.clk _ (busSonido _ _) = _
  rw [busSonido, if_pos escribe, notavel]
  rfl

/-- What `SoundModule` receives for a note that the loop handles: the low seven bits of its codes. -/
lemma Camino.sounds (c : Camino u s w t th td ta te) (h : nota u s w t = some e) :
    (en u s w (te + 1)).sonido.enable = true ∧
      (en u s w (te + 1)).sonido.key = (e.key ++ BitVec.ofBool u.key).extractLsb' 0 7 ∧
      (en u s w (te + 1)).sonido.vel = (e.vel ++ BitVec.ofBool u.vel).extractLsb' 0 7 := by
  obtain ⟨key, vel, enable⟩ :=
    AvalonSound.on_word (e.key ++ BitVec.ofBool u.key) (e.vel ++ BitVec.ofBool u.vel)
  rw [c.word h]
  refine ⟨enable, ?_, ?_⟩
  · exact congrArg (BitVec.extractLsb' 0 7) key
  · exact congrArg (BitVec.extractLsb' 0 7) vel

/-- A note keeps its number and velocity on its way through the system if and only if both are 0, and
so are the undriven bits. -/
theorem sistema_conserva_iff (h : nota u s w t = some e) :
    Conserva u s w t e ↔ e.key = 0#7 ∧ e.vel = 0#7 ∧ u = ⟨false, false⟩ := by
  have reg : (en u s w (t + 1)).rx.regs.regDatos = datos u e := regDatos_event u h _ _
  constructor
  · rintro ⟨latched, -⟩
    exact (datos_iff u e).mp (reg.symm.trans latched)
  · intro zero
    refine ⟨reg.trans ((datos_iff u e).mpr zero), fun _ th td ta te c => ?_⟩
    obtain ⟨key, vel, rfl⟩ := zero
    have sounds := c.sounds h
    rw [key, vel] at sounds ⊢
    exact sounds

/-- Key 60 with velocity 100 about to be pulsed. -/
def porPulsar : St where
  rx := ⟨(Modulo1.reset, ⟨.e8, 0x9#4, 60#7, 100#7⟩), .reset⟩
  pc := none
  main := Main.inicial 0#32 0#32 0#32
  sonido := .reset

/-- The handler, and then the loop. -/
def turnos (t : ℕ) : In where
  rxMidi := true
  turno := if t = 0 then .nada else if t < 8 then .irq else .main

/-- The loop handles that note, and it sounds as key 120 with velocity 72. -/
theorem sistema_conserva_iff_example :
    Camino ⟨false, false⟩ porPulsar turnos 0 3 13 14 21 ∧
      (en ⟨false, false⟩ porPulsar turnos 22).sonido.key = 120#7 ∧
      (en ⟨false, false⟩ porPulsar turnos 22).sonido.vel = 72#7 ∧
      (Conserva ⟨false, false⟩ porPulsar turnos 0 ⟨true, 60#7, 100#7⟩ ↔
        60#7 = 0#7 ∧ 100#7 = 0#7 ∧ (⟨false, false⟩ : Undriven) = ⟨false, false⟩) := by
  have lee : ∀ x < 13, 3 < x →
      paso (en ⟨false, false⟩ porPulsar turnos x) (turnos x) ≠ some .clrDato := by decide
  have escribe : ∀ x < 21, 14 < x →
      paso (en ⟨false, false⟩ porPulsar turnos x) (turnos x) ≠ some .testOn := by decide
  have solo : ∀ x < 22, 0 < x → nota ⟨false, false⟩ porPulsar turnos x = none := by decide
  refine ⟨⟨by decide, ⟨by decide, by decide, fun x lo hi => lee x hi lo⟩,
    ⟨by decide, by decide, by decide, fun x lo hi => by omega⟩,
    ⟨by decide, by decide, fun x lo hi => escribe x hi lo⟩,
    fun x lo hi => solo x (Nat.lt_succ_of_le hi) lo⟩, by decide, by decide,
    sistema_conserva_iff (by decide)⟩

/-- A Note On of key 60 with velocity 100 on the line. -/
def pulsada (t : ℕ) : In where
  rxMidi := Serial.line 1600 [(0, 0x90#8), (0, 60#8), (0, 100#8)] t
  turno := .nada

/-- It is latched as key 120 with velocity 200. -/
theorem not_conserva : ∃ t, nota ⟨false, false⟩ (reset 0#4 0#32 0#32 0#32) pulsada t =
      some ⟨true, 60#7, 100#7⟩ ∧
    ¬ Conserva ⟨false, false⟩ (reset 0#4 0#32 0#32 0#32) pulsada t ⟨true, 60#7, 100#7⟩ := by
  have line := Codificador.codificador_line (r := 0#4) (P := 1600) (by decide) (by decide)
    [(0, 0x90#8), (0, 60#8), (0, 100#8)] _ (Nat.le_refl _)
  have mem : (⟨true, 60#7, 100#7⟩ : Midi.NoteEvent) ∈ Midi.decoder.answers .idle
      ([(0, 0x90#8), (0, 60#8), (0, 100#8)].map Prod.snd) := by decide
  rw [← line, mem_log] at mem
  obtain ⟨t, -, note⟩ := mem
  have h : nota ⟨false, false⟩ (reset 0#4 0#32 0#32 0#32) pulsada t = some ⟨true, 60#7, 100#7⟩ :=
    (nota_codificador t).trans note
  refine ⟨t, h, fun c => ?_⟩
  have latched := (regDatos_run h (Nat.lt_succ_self t) fun y lo hi => by omega).symm.trans c.latched
  exact absurd ((datos_iff _ _).mp latched).1 (by decide)

end Sistema
