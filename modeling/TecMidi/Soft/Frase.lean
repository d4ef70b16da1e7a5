import TecMidi.Soft.Nota
import TecMidi.Soft.Teclado

/-!
# The notes of a keyboard

The note logic of `main` fed with what is played on a keyboard: a press arrives with `Estado` 0x5, a
release with `Estado` 0x3, and `Dato` carries the velocity and the key. `tras` is the fold over the events
of `gs`, from any initial content of `PrimeraTecla` and `TeclaActual`.

`frase_notas` is the refinement: the variables hold the phrase of `gs`. `calla_con_frase` needs no bound on
the presses and says what a sounding note means: the first key of its phrase is still down.
-/

namespace Nota
open Gesto

/-- The gestures of a MIDI keyboard: the key and the velocity are bytes. -/
abbrev Toque := Gesto (BitVec 8) (BitVec 8)

/-- The word of `RegDatos` for a note. -/
def palabra (k v : BitVec 8) : BitVec 32 := 0x0000#16 ++ (v ++ k)

/-- The event read for a gesture. -/
def evento : Toque → BitVec 32 × BitVec 32
  | .pulsa k v => (0x5#32, palabra k v)
  | .despulsa k v => (0x3#32, palabra k v)

/-- The variables after what has been played. -/
def tras (p q : BitVec 32) (gs : List Toque) : Nota :=
  (inicial p q).aplicaTodos (gs.map evento)

/-- The enable bit, the data, the key and the velocity that the codec is given. -/
def enable (n : Nota) : Bool := n.notavel.getLsbD 16

/-- The data that the codec is given. -/
def datos (n : Nota) : BitVec 16 := n.notavel.extractLsb' 0 16

/-- The key that the codec is given. -/
def tecla (n : Nota) : BitVec 8 := n.notavel.extractLsb' 0 8

/-- The velocity that the codec is given. -/
def velocidad (n : Nota) : BitVec 8 := n.notavel.extractLsb' 8 8

/-! ## One event -/

/-- The bits of the word: those of the two codes, and 0 above. -/
lemma palabra_bit (k v : BitVec 8) (i : ℕ) :
    (palabra k v).getLsbD i = if i < 16 then (v ++ k).getLsbD i else false := by
  refine (BitVec.getLsbD_append (x := 0#16) (y := v ++ k)).trans ?_
  split
  · rfl
  · exact BitVec.getLsbD_zero

/-- The low byte of the word is the key. -/
lemma palabra_tecla (k v : BitVec 8) : palabra k v &&& 0xFF#32 = k.setWidth 32 := by
  apply BitVec.eq_of_getLsbD_eq
  intro i lt
  have mask : (0xFF#32).getLsbD i = decide (i < 8) := by
    revert lt
    revert i
    decide
  rw [BitVec.getLsbD_and, mask, palabra_bit, BitVec.getLsbD_setWidth, BitVec.getLsbD_append]
  by_cases low : i < 8
  · have lt' : i < 16 := by omega
    simp [low, lt, lt']
  · have out : k.getLsbD i = false := BitVec.getLsbD_of_ge k i (by omega)
    simp [low, out]

/-- A press writes the codes to `notavel`. -/
lemma pulsa_bit (n : Nota) (k v : BitVec 8) (i : ℕ) (lt : i < 16) :
    (n.pulsa (palabra k v)).notavel.getLsbD i = (v ++ k).getLsbD i := by
  have bit : (0x10000#32).getLsbD i = false := by
    revert lt
    revert i
    decide
  show (palabra k v ||| 0x10000#32).getLsbD i = _
  rw [BitVec.getLsbD_or, palabra_bit, bit, if_pos lt, Bool.or_false]

/-- A press enables the note. -/
@[simp] lemma enable_pulsa (n : Nota) (k v : BitVec 8) : (n.pulsa (palabra k v)).enable = true := by
  show (palabra k v ||| 0x10000#32).getLsbD 16 = true
  rw [BitVec.getLsbD_or]
  exact Bool.or_true _

/-- A press is counted. -/
@[simp] lemma nTeclas_pulsa (n : Nota) (d : BitVec 32) : (n.pulsa d).nTeclas = n.nTeclas + 1#32 := rfl

/-- A press is remembered if the count was 0. -/
lemma primera_pulsa (n : Nota) (k v : BitVec 8) :
    (n.pulsa (palabra k v)).primeraTecla =
      if n.nTeclas = 0#32 then k.setWidth 32 else n.primeraTecla := by
  rw [← palabra_tecla k v]
  rfl

/-- The codec is given the data of a press. -/
@[simp] lemma datos_pulsa (n : Nota) (k v : BitVec 8) : (n.pulsa (palabra k v)).datos = v ++ k := by
  apply BitVec.eq_of_getLsbD_eq
  intro i lt
  rw [datos, BitVec.getLsbD_extractLsb', Nat.zero_add, pulsa_bit n k v i lt]
  simp [lt]

/-- The release of the remembered key disables the note and clears the count. -/
lemma despulsa_misma {n : Nota} {k : BitVec 8} (v : BitVec 8) (same : n.primeraTecla = k.setWidth 32) :
    n.despulsa (palabra k v) = ⟨n.notavel &&& 0xFFFF#32, 0#32, n.primeraTecla, k.setWidth 32⟩ := by
  rw [despulsa, palabra_tecla, if_pos same.symm]

/-- The release of another key changes nothing that is heard. -/
lemma despulsa_otra {n : Nota} {k : BitVec 8} (v : BitVec 8) (other : n.primeraTecla ≠ k.setWidth 32) :
    n.despulsa (palabra k v) = ⟨n.notavel, n.nTeclas, n.primeraTecla, k.setWidth 32⟩ := by
  rw [despulsa, palabra_tecla, if_neg other.symm]

/-- Without bit 16 the note is off. -/
lemma enable_apaga (x y p q : BitVec 32) : enable ⟨x &&& 0xFFFF#32, y, p, q⟩ = false := by
  show (x &&& 0xFFFF#32).getLsbD 16 = false
  rw [BitVec.getLsbD_and]
  exact Bool.and_false _

/-- The data stay when the note is switched off. -/
lemma datos_apaga (x y p q : BitVec 32) : datos ⟨x &&& 0xFFFF#32, y, p, q⟩ = x.extractLsb' 0 16 := by
  apply BitVec.eq_of_getLsbD_eq
  intro i lt
  have mask : (0xFFFF#32).getLsbD i = true := by
    revert lt
    revert i
    decide
  simp only [datos, BitVec.getLsbD_extractLsb', BitVec.getLsbD_and, Nat.zero_add, mask, Bool.and_true]

/-- A release leaves the remembered key. -/
@[simp] lemma primera_despulsa (n : Nota) (d : BitVec 32) :
    (n.despulsa d).primeraTecla = n.primeraTecla := by
  unfold despulsa
  split
  · rfl
  · rfl

/-- A release leaves the data. -/
@[simp] lemma datos_despulsa (n : Nota) (d : BitVec 32) : (n.despulsa d).datos = n.datos := by
  unfold despulsa
  split
  · exact datos_apaga _ _ _ _
  · rfl

/-- The key is the low byte of the data. -/
lemma tecla_datos (n : Nota) : n.tecla = n.datos.extractLsb' 0 8 := by
  apply BitVec.eq_of_getLsbD_eq
  intro i lt
  simp [tecla, datos, lt]

/-- The velocity is the high byte. -/
lemma velocidad_datos (n : Nota) : n.velocidad = n.datos.extractLsb' 8 8 := by
  apply BitVec.eq_of_getLsbD_eq
  intro i lt
  simp [velocidad, datos, lt]

/-- Keys are compared as words. -/
lemma setWidth_inj {k a : BitVec 8} : k.setWidth 32 = a.setWidth 32 ↔ k = a := by
  constructor
  · intro eq
    have back := congrArg (BitVec.setWidth 8) eq
    simpa using back
  · exact congrArg (BitVec.setWidth 32)

/-! ## Runs -/

/-- What is played last is applied last. -/
lemma tras_snoc (p q : BitVec 32) (gs : List Toque)
    (g : Toque) :
    tras p q (gs ++ [g]) = (tras p q gs).aplica (evento g).1 (evento g).2 := by
  rw [tras, List.map_append, aplicaTodos_append]
  rfl

/-- A press is applied to the variables. -/
@[simp] lemma tras_pulsa (p q : BitVec 32) (gs : List Toque) (k v : BitVec 8) :
    tras p q (gs ++ [.pulsa k v]) = (tras p q gs).pulsa (palabra k v) := by
  rw [tras_snoc]
  rfl

/-- A release is applied to the variables. -/
@[simp] lemma tras_despulsa (p q : BitVec 32) (gs : List Toque)
    (k v : BitVec 8) :
    tras p q (gs ++ [.despulsa k v]) = (tras p q gs).despulsa (palabra k v) := by
  rw [tras_snoc]
  rfl

/-! ## The phrase -/

/-- The data of the note are those of the most recent press. -/
lemma tras_datos (p q : BitVec 32) {gs : List Toque} {k v : BitVec 8}
    (last : ultima gs = some (k, v)) : (tras p q gs).datos = v ++ k := by
  induction gs using List.reverseRecOn with
  | nil => cases last
  | append_singleton gs g ih =>
    cases g with
    | pulsa k' v' =>
      rw [ultima_pulsa] at last
      cases last
      rw [tras_pulsa, datos_pulsa]
    | despulsa k' v' =>
      rw [ultima_despulsa] at last
      rw [tras_despulsa, datos_despulsa, ih last]

/-- The variables hold the phrase that is open after `gs`, while no phrase has had so many presses that
`n_teclas` is negative. -/
structure Refiere (n : Nota) (gs : List Toque) : Prop where
  cuenta : n.nTeclas = BitVec.ofNat 32 (presiones gs)
  primera : ∀ a m, frase gs = some (a, m) → n.primeraTecla = a.setWidth 32
  enable : gs ≠ [] → n.enable = (frase gs).isSome

/-- A press goes on with the open phrase, or opens one. -/
lemma Refiere.pulsa {n : Nota} {gs : List Toque} (r : Refiere n gs)
    (pos : ∀ a m, frase gs = some (a, m) → 0 < m) (bound : presiones gs < 0x80000000)
    (k v : BitVec 8) : Refiere (n.pulsa (palabra k v)) (gs ++ [.pulsa k v]) := by
  cases eq : frase gs with
  | none =>
    have zero : n.nTeclas = 0#32 := by rw [r.cuenta, presiones, eq]; rfl
    have new := frase_abre k v eq
    refine ⟨?_, ?_, ?_⟩
    · rw [nTeclas_pulsa, zero, presiones, new]
      rfl
    · intro a m open_
      rw [new] at open_
      cases open_
      rw [primera_pulsa, if_pos zero]
    · intro _
      rw [enable_pulsa, new]
      rfl
  | some f =>
    obtain ⟨a, m⟩ := f
    have count : presiones gs = m := by rw [presiones, eq]; rfl
    have new := frase_sigue k v eq
    have ne : n.nTeclas ≠ 0#32 := by
      intro zero
      rw [r.cuenta, count] at zero
      have nat := congrArg BitVec.toNat zero
      rw [BitVec.toNat_ofNat, Nat.mod_eq_of_lt (by omega)] at nat
      exact absurd nat (Nat.ne_of_gt (pos a m eq))
    refine ⟨?_, ?_, ?_⟩
    · rw [nTeclas_pulsa, r.cuenta, presiones, presiones, eq, new]
      exact (BitVec.ofNat_add m 1).symm
    · intro b l open_
      rw [new] at open_
      cases open_
      rw [primera_pulsa, if_neg ne]
      exact r.primera a m eq
    · intro _
      rw [enable_pulsa, new]
      rfl

/-- A release closes the phrase of its key and nothing else. -/
lemma Refiere.despulsa {n : Nota} {gs : List Toque} (r : Refiere n gs)
    (ne : gs ≠ []) (k v : BitVec 8) : Refiere (n.despulsa (palabra k v)) (gs ++ [.despulsa k v]) := by
  by_cases same : n.primeraTecla = k.setWidth 32
  · -- the phrase of `k`, or a stale first key while no phrase is open
    have closed : frase (gs ++ [.despulsa k v]) = none := by
      rw [frase_despulsa]
      cases eq : frase gs with
      | none => rfl
      | some f =>
        have first := r.primera f.1 f.2 eq
        rw [same, setWidth_inj] at first
        rw [Option.filter_some, first]
        simp
    rw [despulsa_misma v same]
    refine ⟨?_, ?_, ?_⟩
    · rw [presiones, closed]
      rfl
    · intro a m open_
      rw [closed] at open_
      cases open_
    · intro _
      rw [enable_apaga, closed]
      rfl
  · have kept : frase (gs ++ [.despulsa k v]) = frase gs := by
      rw [frase_despulsa]
      cases eq : frase gs with
      | none => rfl
      | some f =>
        have first := r.primera f.1 f.2 eq
        rw [first, setWidth_inj] at same
        rw [Option.filter_some]
        simp [Ne.symm same]
    rw [despulsa_otra v same]
    refine ⟨?_, ?_, ?_⟩
    · rw [presiones, kept]
      exact r.cuenta
    · intro a m open_
      rw [kept] at open_
      exact r.primera a m open_
    · intro _
      rw [kept]
      exact r.enable ne

/-- What is played is referred to by the variables, if every phrase is short enough for the counter. -/
lemma refiere (p q : BitVec 32) {gs : List Toque} {ks : Finset (BitVec 8)}
    (toca : Toca gs ks) (pocas : ∀ hs, hs <+: gs → presiones hs < 0x80000000) :
    Refiere (tras p q gs) gs := by
  induction toca with
  | nada =>
    refine ⟨rfl, ?_, ?_⟩
    · intro a m open_
      cases open_
    · intro ne
      exact absurd rfl ne
  | @pulsa gs ks k v toca up ih =>
    have r := ih fun hs pre => pocas hs (pre.trans (List.prefix_append _ _))
    rw [tras_pulsa]
    exact r.pulsa (fun a m open_ => (toca.abierta open_).2) (pocas gs (List.prefix_append _ _)) k v
  | @despulsa gs ks k v toca down ih =>
    have r := ih fun hs pre => pocas hs (pre.trans (List.prefix_append _ _))
    rw [tras_despulsa]
    apply r.despulsa
    exact toca.ne_nil down

/-- After every event the variables are those of the phrase: bit 16 says whether one is open, `n_teclas`
counts its presses, the data are those of the last press; with all keys up the note is off. -/
theorem frase_notas (p q : BitVec 32) {gs : List Toque} {ks : Finset (BitVec 8)}
    (toca : Toca gs ks) (ne : gs ≠ []) (pocas : ∀ hs, hs <+: gs → presiones hs < 0x80000000) :
    (tras p q gs).notavel.getLsbD 16 = (frase gs).isSome ∧
      (tras p q gs).nTeclas.toInt = presiones gs ∧
      (∃ k v, ultima gs = some (k, v) ∧ (tras p q gs).notavel.extractLsb' 0 16 = v ++ k) ∧
      (ks = ∅ → (tras p q gs).notavel.getLsbD 16 = false) := by
  have r := refiere p q toca pocas
  have on := r.enable ne
  refine ⟨on, ?_, ?_, ?_⟩
  · have few := pocas gs (List.prefix_refl gs)
    have nat : (tras p q gs).nTeclas.toNat = presiones gs := by
      rw [r.cuenta, BitVec.toNat_ofNat, Nat.mod_eq_of_lt (by omega)]
    rw [BitVec.toInt_eq_toNat_of_lt (by omega), nat]
  · obtain ⟨k, v, last⟩ := toca.pulsada ne
    exact ⟨k, v, last, tras_datos p q last⟩
  · intro up
    subst up
    rw [toca.cerrada] at on
    exact on

/-- A key is held over the end of its phrase and a second phrase is opened by another key. -/
theorem frase_notas_dos :
    (tras 0x40#32 0x40#32
      [.pulsa 0x3C#8 0x50#8, .pulsa 0x40#8 0x51#8, .despulsa 0x3C#8 0#8, .pulsa 0x43#8 0x52#8]).nTeclas.toInt
      = 1 := by
  have toca : Toca
      ([] ++ [.pulsa 0x3C#8 0x50#8] ++ [.pulsa 0x40#8 0x51#8] ++ [.despulsa 0x3C#8 0#8] ++
        [.pulsa 0x43#8 0x52#8] : List Toque)
      (insert 0x43#8 ((insert 0x40#8 (insert 0x3C#8 ∅) : Finset (BitVec 8)).erase 0x3C#8)) := by
    refine .pulsa (.despulsa (.pulsa (.pulsa .nada ?_) ?_) ?_) ?_
    all_goals decide
  exact (frase_notas 0x40#32 0x40#32 toca (by decide) (presiones_lt (by decide))).2.1.trans (by decide)

/-! ## What a sounding note means -/

/-- `PrimeraTecla` holds a key that is down, as long as it matters: also where `n_teclas` has wrapped
around, since the next press is then remembered. -/
lemma sostenida (p q : BitVec 32) {gs : List Toque} {ks : Finset (BitVec 8)}
    (toca : Toca gs ks)
    (open_ : (tras p q gs).nTeclas ≠ 0#32 ∨ gs ≠ [] ∧ (tras p q gs).enable = true) :
    ∃ a ∈ ks, (tras p q gs).primeraTecla = a.setWidth 32 := by
  induction toca with
  | nada =>
    rcases open_ with ne | ⟨ne, -⟩
    · exact absurd rfl ne
    · exact absurd rfl ne
  | @pulsa gs ks k v toca up ih =>
    rw [tras_pulsa, primera_pulsa]
    by_cases zero : (tras p q gs).nTeclas = 0#32
    · rw [if_pos zero]
      exact ⟨k, Finset.mem_insert_self k ks, rfl⟩
    · rw [if_neg zero]
      obtain ⟨a, held, first⟩ := ih (.inl zero)
      exact ⟨a, Finset.mem_insert_of_mem held, first⟩
  | @despulsa gs ks k v toca down ih =>
    rw [tras_despulsa] at open_ ⊢
    by_cases same : (tras p q gs).primeraTecla = k.setWidth 32
    · rw [despulsa_misma v same, enable_apaga] at open_
      rcases open_ with ne | ⟨-, on⟩
      · exact absurd rfl ne
      · cases on
    · rw [despulsa_otra v same] at open_
      obtain ⟨a, held, first⟩ := ih (open_.imp id fun on => ⟨toca.ne_nil down, on.2⟩)
      rw [primera_despulsa]
      refine ⟨a, Finset.mem_erase.mpr ⟨?_, held⟩, first⟩
      intro eq
      rw [first, eq] at same
      exact same rfl

/-- After every event, a note that is on is the one pressed last, and the key remembered in `PrimeraTecla`
is down. -/
theorem calla_con_frase (p q : BitVec 32) {gs : List Toque}
    {ks : Finset (BitVec 8)} (toca : Toca gs ks) (ne : gs ≠ [])
    (on : (tras p q gs).notavel.getLsbD 16 = true) :
    (∃ v, ultima gs = some ((tras p q gs).notavel.extractLsb' 0 8, v)) ∧
      ∃ a ∈ ks, (tras p q gs).primeraTecla = a.setWidth 32 := by
  refine ⟨?_, sostenida p q toca (.inr ⟨ne, on⟩)⟩
  obtain ⟨k, v, last⟩ := toca.pulsada ne
  refine ⟨v, ?_⟩
  have key : (tras p q gs).tecla = k := by
    rw [tecla_datos, tras_datos p q last]
    exact BitVec.extractLsb'_append_eq_right
  rw [last, ← key]
  rfl

/-- A player may press two keys and release the second one. -/
lemma toca_dos : Toca
    ([] ++ [.pulsa 0x3C#8 0x50#8] ++ [.pulsa 0x40#8 0x51#8] ++ [.despulsa 0x40#8 0x51#8] :
      List Toque)
    ((insert 0x40#8 (insert 0x3C#8 ∅) : Finset (BitVec 8)).erase 0x40#8) := by
  refine .despulsa (.pulsa (.pulsa .nada ?_) ?_) ?_
  all_goals decide

/-- Two keys are pressed and the second one is released: it is on and up. -/
theorem calla_con_frase_dos :
    (tras 0#32 0#32 [.pulsa 0x3C#8 0x50#8, .pulsa 0x40#8 0x51#8, .despulsa 0x40#8 0x51#8]).primeraTecla =
      0x3C#32 := by
  obtain ⟨-, a, held, first⟩ := calla_con_frase 0#32 0#32 toca_dos (by simp) (by decide)
  rw [List.nil_append] at first
  refine first.trans ?_
  revert held
  revert a
  decide

/-- A note may sound after its key has been released. -/
theorem suena_tras_soltar :
    ¬ ∀ (p q : BitVec 32) (gs : List Toque) (ks : Finset (BitVec 8)),
      Toca gs ks → gs ≠ [] → (∀ k v, .pulsa k v ∈ gs → v ≠ 0#8) →
      (tras p q gs).notavel.getLsbD 16 = true → (tras p q gs).notavel.extractLsb' 0 8 ∈ ks := by
  intro claim
  have loud : ∀ k v : BitVec 8, Gesto.pulsa k v ∈
      ([] ++ [.pulsa 0x3C#8 0x50#8] ++ [.pulsa 0x40#8 0x51#8] ++ [.despulsa 0x40#8 0x51#8] :
        List Toque) → v ≠ 0#8 := by
    intro k v mem
    simp only [List.nil_append, List.cons_append, List.mem_cons, List.not_mem_nil, or_false,
      Gesto.pulsa.injEq, reduceCtorEq] at mem
    rcases mem with ⟨-, rfl⟩ | ⟨-, rfl⟩
    · decide
    · decide
  have held := claim 0#32 0#32 _ _ toca_dos (by simp) loud (by decide)
  revert held
  decide

end Nota
