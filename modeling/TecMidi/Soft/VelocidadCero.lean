import TecMidi.Soft.Frase

/-!
# Note Offs sent as Note Ons of velocity 0

Two runs of the note logic side by side: `n` takes the events as they are played, `m` takes some of the Note
Offs as Note Ons of velocity 0, as a sender that uses running status sends them. The note logic has no case
for them: they are presses. `concuerda_iff` says when one event keeps the sound of both runs equal, and
`sustituye_iff` when a whole run does.
-/

namespace Nota
open Gesto

/-- What the codec plays: nothing with the enable bit at 0 or with velocity 0. -/
def suena (n : Nota) : Option (BitVec 8) :=
  if n.enable ∧ n.velocidad ≠ 0#8 then some n.tecla else none

/-- The gestures marked with `true` are sent with running status, a release as a press of velocity 0. -/
def sustituye : Toque × Bool → Toque
  | (.despulsa k _, true) => .pulsa k 0#8
  | (g, _) => g

/-- A press is heard unless its velocity is 0. -/
lemma suena_pulsa (n : Nota) (k v : BitVec 8) :
    (n.pulsa (palabra k v)).suena = if v = 0#8 then none else some k := by
  have vel : (n.pulsa (palabra k v)).velocidad = v := by
    rw [velocidad_datos, datos_pulsa]
    exact BitVec.extractLsb'_append_eq_left
  have key : (n.pulsa (palabra k v)).tecla = k := by
    rw [tecla_datos, datos_pulsa]
    exact BitVec.extractLsb'_append_eq_right
  rw [suena, enable_pulsa, vel, key]
  by_cases zero : v = 0#8
  · simp [zero]
  · simp [zero]

/-- A release is heard if it is that of the remembered key. -/
lemma suena_despulsa (n : Nota) (k v : BitVec 8) :
    (n.despulsa (palabra k v)).suena = if n.primeraTecla = k.setWidth 32 then none else n.suena := by
  by_cases same : n.primeraTecla = k.setWidth 32
  · rw [if_pos same, despulsa_misma v same, suena, enable_apaga]
    simp
  · rw [if_neg same, despulsa_otra v same]
    rfl

/-- The event does the same to the sound of both runs, `n` without substitutions and `m` with them. -/
def Concuerda (n m : Nota) : Toque × Bool → Prop
  | (.pulsa _ _, _) => True
  | (.despulsa k _, true) => n.primeraTecla = k.setWidth 32
  | (.despulsa k _, false) => n.primeraTecla = k.setWidth 32 ↔ m.primeraTecla = k.setWidth 32

/-- An event keeps the sound of both runs equal exactly if it does the same to both or finds nothing sounding.
-/
lemma concuerda_iff {n m : Nota} (same : n.suena = m.suena)
    (e : Toque × Bool) :
    (n.aplica (evento e.1).1 (evento e.1).2).suena =
        (m.aplica (evento (sustituye e)).1 (evento (sustituye e)).2).suena ↔
      (n.suena ≠ none → Concuerda n m e) := by
  obtain ⟨g, mark⟩ := e
  cases g with
  | pulsa k v =>
    have eq : (n.pulsa (palabra k v)).suena = (m.pulsa (palabra k v)).suena := by
      rw [suena_pulsa, suena_pulsa]
    exact ⟨fun _ _ => trivial, fun _ => eq⟩
  | despulsa k v =>
    cases mark with
    | true =>
      show (n.despulsa (palabra k v)).suena = (m.pulsa (palabra k 0#8)).suena ↔
        (n.suena ≠ none → n.primeraTecla = k.setWidth 32)
      rw [suena_despulsa, suena_pulsa, if_pos rfl]
      by_cases first : n.primeraTecla = k.setWidth 32
      · simp [first]
      · simp [first]
    | false =>
      show (n.despulsa (palabra k v)).suena = (m.despulsa (palabra k v)).suena ↔
        (n.suena ≠ none → (n.primeraTecla = k.setWidth 32 ↔ m.primeraTecla = k.setWidth 32))
      rw [suena_despulsa, suena_despulsa, ← same]
      by_cases first : n.primeraTecla = k.setWidth 32
      · by_cases first' : m.primeraTecla = k.setWidth 32
        · simp [first, first']
        · simp [first, first', eq_comm]
      · by_cases first' : m.primeraTecla = k.setWidth 32
        · simp [first, first']
        · simp [first, first']

/-- After every event the codec plays the same with the substitutions and without. -/
def SuenaIgual (p q : BitVec 32) (ms : List (Toque × Bool)) : Prop :=
  ∀ hs, hs <+: ms → (tras p q (hs.map Prod.fst)).suena = (tras p q (hs.map sustituye)).suena

/-- A run keeps the sound equal exactly if each of its events does. -/
lemma suenaIgual_iff (p q : BitVec 32) (ms : List (Toque × Bool)) :
    SuenaIgual p q ms ↔
      ∀ hs e, hs ++ [e] <+: ms → (tras p q (hs.map Prod.fst)).suena ≠ none →
        Concuerda (tras p q (hs.map Prod.fst)) (tras p q (hs.map sustituye)) e := by
  constructor
  · intro same hs e pre
    have now := same hs ((List.prefix_append hs [e]).trans pre)
    have next := same (hs ++ [e]) pre
    rw [List.map_append, List.map_append, List.map_singleton, List.map_singleton, tras_snoc,
      tras_snoc] at next
    exact (concuerda_iff now e).mp next
  · intro agree hs
    induction hs using List.reverseRecOn with
    | nil =>
      intro _
      rfl
    | append_singleton hs e ih =>
      intro pre
      have now := ih ((List.prefix_append hs [e]).trans pre)
      rw [List.map_append, List.map_append, List.map_singleton, List.map_singleton, tras_snoc,
        tras_snoc]
      exact (concuerda_iff now e).mpr (agree hs e pre)

/-- No key is pressed while another one is down. -/
def UnaAUna (gs : List Toque) : Prop :=
  ∀ hs k v us, hs ++ [.pulsa k v] <+: gs → Toca hs us → us = ∅

/-- Nothing is played. -/
lemma UnaAUna.nada : UnaAUna [] := fun hs k v us pre _ => by simp at pre

/-- With all keys up, one of them is pressed and released. -/
lemma UnaAUna.nota {gs : List Toque} (mono : UnaAUna gs) (up : Toca gs ∅) (k v v' : BitVec 8) :
    UnaAUna (gs ++ [.pulsa k v] ++ [.despulsa k v']) := by
  intro hs l x us pre toca
  rcases List.prefix_concat_iff.mp pre with eq | pre'
  · cases List.append_inj_right' eq rfl
  · rcases List.prefix_concat_iff.mp pre' with eq | pre''
    · rw [List.append_inj_left' eq rfl] at toca
      exact toca.unica up
    · exact mono hs l x us pre'' toca

/-- With one key at a time, `PrimeraTecla` is the key that is down. -/
lemma sola (p q : BitVec 32) {gs : List Toque} {ks : Finset (BitVec 8)} (toca : Toca gs ks)
    (mono : UnaAUna gs) :
    ks = ∅ ∧ (tras p q gs).nTeclas = 0#32 ∨
      ∃ a, ks = {a} ∧ (tras p q gs).primeraTecla = a.setWidth 32 := by
  induction toca with
  | nada => exact .inl ⟨rfl, rfl⟩
  | @pulsa gs ks k v toca up ih =>
    have empty : ks = ∅ := mono gs k v ks (List.prefix_refl _) toca
    right
    refine ⟨k, by rw [empty]; rfl, ?_⟩
    rcases ih fun hs k v us pre => mono hs k v us (pre.trans (List.prefix_append _ _)) with
      ⟨-, zero⟩ | ⟨a, one, -⟩
    · rw [tras_pulsa, primera_pulsa, if_pos zero]
    · rw [empty] at one
      exact absurd one.symm (Finset.singleton_ne_empty a)
  | @despulsa gs ks k v toca down ih =>
    left
    rcases ih fun hs k v us pre => mono hs k v us (pre.trans (List.prefix_append _ _)) with
      ⟨empty, -⟩ | ⟨a, one, first⟩
    · rw [empty] at down
      exact absurd down (Finset.notMem_empty k)
    · rw [one, Finset.mem_singleton] at down
      subst down
      rw [tras_despulsa, despulsa_misma v first, one]
      refine ⟨?_, rfl⟩
      exact Finset.erase_singleton k

/-- With one key at a time all events do the same to both. -/
lemma suenaIgual_unaAUna (p q : BitVec 32) {ms : List (Toque × Bool)} {ks : Finset (BitVec 8)}
    (toca : Toca (ms.map Prod.fst) ks) (all : ∀ e ∈ ms, e.2 = true) (mono : UnaAUna (ms.map Prod.fst)) :
    SuenaIgual p q ms := by
  rw [suenaIgual_iff]
  intro hs e pre _
  obtain ⟨g, mark⟩ := e
  have sub : mark = true := all (g, mark) (pre.subset (by simp))
  subst sub
  cases g with
  | pulsa k v => trivial
  | despulsa k v =>
    have pre' : hs.map Prod.fst ++ [.despulsa k v] <+: ms.map Prod.fst := by
      simpa using pre.map Prod.fst
    obtain ⟨us, toca'⟩ := toca.prefix_toca pre'
    obtain ⟨us', toca'', down, -⟩ := toca'.soltada
    have mono' : UnaAUna (hs.map Prod.fst) := fun gs k v us pre'' =>
      mono gs k v us (pre''.trans ((List.prefix_append _ _).trans pre'))
    rcases sola p q toca'' mono' with ⟨empty, -⟩ | ⟨a, one, first⟩
    · rw [empty] at down
      exact absurd down (Finset.notMem_empty k)
    · rw [one, Finset.mem_singleton] at down
      rw [← down] at first
      exact first

/-- The substituted events leave the sound as it is, after every event, exactly if at every event that finds
a note sounding the runs agree on `PrimeraTecla`. They do when all Note Offs are substituted and the keys are
played one at a time. -/
theorem sustituye_iff (p q : BitVec 32) (ms : List (Toque × Bool)) :
    (SuenaIgual p q ms ↔
      ∀ hs e, hs ++ [e] <+: ms → (tras p q (hs.map Prod.fst)).suena ≠ none →
        Concuerda (tras p q (hs.map Prod.fst)) (tras p q (hs.map sustituye)) e) ∧
    ∀ ks, Toca (ms.map Prod.fst) ks → (∀ e ∈ ms, e.2 = true) → UnaAUna (ms.map Prod.fst) →
      SuenaIgual p q ms :=
  ⟨suenaIgual_iff p q ms, fun _ toca all mono => suenaIgual_unaAUna p q toca all mono⟩

/-- Two notes. After the first one the runs differ in the key that they remember. -/
theorem sustituye_iff_dos :
    SuenaIgual 0#32 0#32 [(.pulsa 0x3C#8 0x50#8, true), (.despulsa 0x3C#8 0x40#8, true),
        (.pulsa 0x40#8 0x51#8, true), (.despulsa 0x40#8 0x40#8, true)] ∧
      (tras 0#32 0#32 [.pulsa 0x3C#8 0x50#8, .despulsa 0x3C#8 0x40#8, .pulsa 0x40#8 0x51#8]).primeraTecla =
        0x40#32 ∧
      (tras 0#32 0#32 [.pulsa 0x3C#8 0x50#8, .pulsa 0x3C#8 0#8, .pulsa 0x40#8 0x51#8]).primeraTecla =
        0x3C#32 := by
  have una : Toca ([] ++ [.pulsa 0x3C#8 0x50#8] ++ [.despulsa 0x3C#8 0x40#8] : List Toque)
      ((insert 0x3C#8 ∅ : Finset (BitVec 8)).erase 0x3C#8) := by
    refine .despulsa (.pulsa .nada ?_) ?_
    all_goals decide
  have dos : Toca ([] ++ [.pulsa 0x3C#8 0x50#8] ++ [.despulsa 0x3C#8 0x40#8] ++ [.pulsa 0x40#8 0x51#8] ++
        [.despulsa 0x40#8 0x40#8] : List Toque)
      ((insert 0x40#8 ((insert 0x3C#8 ∅ : Finset (BitVec 8)).erase 0x3C#8)).erase 0x40#8) := by
    refine .despulsa (.pulsa una ?_) ?_
    all_goals decide
  have mono := (UnaAUna.nada.nota .nada 0x3C#8 0x50#8 0x40#8).nota una 0x40#8 0x51#8 0x40#8
  exact ⟨(sustituye_iff 0#32 0#32 _).2 _ dos (by simp) mono, by decide, by decide⟩

/-- A Note Off is sent as a Note On of velocity 0 and the next one is not: the second note never ends. -/
theorem sustituye_suena :
    ¬ ∀ (p q : BitVec 32) (ms : List (Toque × Bool)) (ks : Finset (BitVec 8)),
      Toca (ms.map Prod.fst) ks → (∀ k v, Gesto.pulsa k v ∈ ms.map Prod.fst → v ≠ 0#8) →
      SuenaIgual p q ms := by
  intro claim
  have toca : Toca
      ([] ++ [.pulsa 0x3C#8 0x50#8] ++ [.despulsa 0x3C#8 0x40#8] ++ [.pulsa 0x40#8 0x51#8] ++
        [.despulsa 0x40#8 0x40#8] : List Toque)
      ((insert 0x40#8 ((insert 0x3C#8 ∅ : Finset (BitVec 8)).erase 0x3C#8)).erase 0x40#8) := by
    refine .despulsa (.pulsa (.despulsa (.pulsa .nada ?_) ?_) ?_) ?_
    all_goals decide
  have same := claim 0#32 0#32 [(.pulsa 0x3C#8 0x50#8, false), (.despulsa 0x3C#8 0x40#8, true),
    (.pulsa 0x40#8 0x51#8, false), (.despulsa 0x40#8 0x40#8, false)] _ toca ?_ _ (List.prefix_refl _)
  · revert same
    decide
  · intro k v mem
    simp only [List.map_cons, List.map_nil, List.mem_cons, List.not_mem_nil, or_false,
      Gesto.pulsa.injEq, reduceCtorEq, false_or] at mem
    rcases mem with ⟨-, rfl⟩ | ⟨-, rfl⟩
    · decide
    · decide

end Nota
