import Mathlib.Data.Finset.Basic
import Mathlib.Data.Finset.Image
import Mathlib.Data.List.Infix

/-!
# Keyboards

What a player does at a keyboard, over arbitrary keys `κ` and data `δ`. `Toca gs ks` says that `gs` can be
played from all keys up and leaves the keys `ks` down.

`frase` cuts what is played into phrases: a phrase opens at a press when none is open, and closes when the
key that opened it is released. `Toca.abierta` is the fact that makes a phrase a phrase: while it is open,
the key that opened it is down.
-/

/-- A key is pressed with some data, or released with some. -/
inductive Gesto (κ δ : Type) where
  | pulsa (k : κ) (d : δ)
  | despulsa (k : κ) (d : δ)
deriving DecidableEq, Repr

namespace Gesto

variable {κ δ : Type} [DecidableEq κ]

/-- A key is pressed only when up and released only when down. -/
inductive Toca : List (Gesto κ δ) → Finset κ → Prop
  | nada : Toca [] ∅
  | pulsa {gs ks k d} :
    Toca gs ks → k ∉ ks → Toca (gs ++ [.pulsa k d]) (insert k ks)
  | despulsa {gs ks k d} :
    Toca gs ks → k ∈ ks → Toca (gs ++ [.despulsa k d]) (ks.erase k)

/-- The phrase that is open, if any: the key that opened it, and the presses since. -/
def pasoFrase (f : Option (κ × ℕ)) : Gesto κ δ → Option (κ × ℕ)
  | .pulsa k _ =>
    match f with
    | none => some (k, 1)
    | some (a, n) => some (a, n + 1)
  | .despulsa k _ =>
    match f with
    | none => none
    | some (a, n) => if k = a then none else some (a, n)

/-- The phrase that is open after all of them. -/
def frase (gs : List (Gesto κ δ)) : Option (κ × ℕ) := gs.foldl pasoFrase none

/-- The presses of the open phrase. -/
def presiones (gs : List (Gesto κ δ)) : ℕ := (frase gs).elim 0 Prod.snd

/-- The most recent press. -/
def ultima (gs : List (Gesto κ δ)) : Option (κ × δ) :=
  gs.foldl (fun u g => match g with | .pulsa k d => some (k, d) | .despulsa _ _ => u) none

/-- The last gesture is a step of the phrase. -/
lemma frase_snoc (gs : List (Gesto κ δ)) (g : Gesto κ δ) :
    frase (gs ++ [g]) = pasoFrase (frase gs) g := by
  simp [frase]

/-- A phrase has no more presses than there are gestures. -/
lemma presiones_le (gs : List (Gesto κ δ)) : presiones gs ≤ gs.length := by
  induction gs using List.reverseRecOn with
  | nil => exact Nat.le_refl 0
  | append_singleton gs g ih =>
    rw [presiones] at ih ⊢
    rw [frase_snoc, List.length_append, List.length_singleton]
    cases g with
    | pulsa k d =>
      cases open_ : frase gs with
      | none => exact Nat.le_add_left 1 gs.length
      | some f =>
        rw [open_] at ih
        exact Nat.succ_le_succ ih
    | despulsa k d =>
      cases open_ : frase gs with
      | none => exact Nat.zero_le _
      | some f =>
        rw [open_] at ih
        rw [pasoFrase]
        split
        · exact Nat.zero_le _
        · exact Nat.le_succ_of_le ih

/-- If only few gestures are played, all of their phrases are short. -/
lemma presiones_lt {gs : List (Gesto κ δ)} {n : ℕ} (short : gs.length < n) :
    ∀ hs, hs <+: gs → presiones hs < n := by
  intro hs pre
  have le := presiones_le hs
  have le' := pre.length_le
  omega

omit [DecidableEq κ] in
/-- The last press is the most recent one. -/
@[simp] lemma ultima_pulsa (gs : List (Gesto κ δ)) (k : κ) (d : δ) :
    ultima (gs ++ [.pulsa k d]) = some (k, d) := by
  simp [ultima]

omit [DecidableEq κ] in
/-- A release is no press. -/
@[simp] lemma ultima_despulsa (gs : List (Gesto κ δ)) (k : κ) (d : δ) :
    ultima (gs ++ [.despulsa k d]) = ultima gs := by
  simp [ultima]

/-- A press opens a phrase if none is open. -/
lemma frase_abre {gs : List (Gesto κ δ)} (k : κ) (d : δ) (eq : frase gs = none) :
    frase (gs ++ [.pulsa k d]) = some (k, 1) := by
  rw [frase_snoc, eq]
  rfl

/-- A press is counted in the phrase that is open. -/
lemma frase_sigue {gs : List (Gesto κ δ)} {a : κ} {n : ℕ} (k : κ) (d : δ) (eq : frase gs = some (a, n)) :
    frase (gs ++ [.pulsa k d]) = some (a, n + 1) := by
  rw [frase_snoc, eq]
  rfl

/-- Only the release of the key that opened the phrase counts. -/
lemma frase_despulsa (gs : List (Gesto κ δ)) (k : κ) (d : δ) :
    frase (gs ++ [.despulsa k d]) = (frase gs).filter fun p => k ≠ p.1 := by
  rw [frase_snoc]
  cases frase gs with
  | none => rfl
  | some p =>
    by_cases same : k = p.1
    · simp [pasoFrase, Option.filter_some, same]
    · simp [pasoFrase, Option.filter_some, same]

namespace Toca

variable {gs : List (Gesto κ δ)} {ks : Finset κ}

/-- What has been played before can be played. -/
lemma prefix_toca (toca : Toca gs ks) {p : List (Gesto κ δ)} (pre : p <+: gs) : ∃ ks', Toca p ks' := by
  induction toca with
  | nada =>
    rw [List.prefix_nil.mp pre]
    exact ⟨∅, .nada⟩
  | pulsa ih up rec_ =>
    rcases List.prefix_concat_iff.mp pre with rfl | pre'
    · exact ⟨_, .pulsa ih up⟩
    · exact rec_ pre'
  | despulsa ih down rec_ =>
    rcases List.prefix_concat_iff.mp pre with rfl | pre'
    · exact ⟨_, .despulsa ih down⟩
    · exact rec_ pre'

/-- Before the first gesture all keys are up. -/
lemma vacia (toca : Toca ([] : List (Gesto κ δ)) ks) : ks = ∅ := by
  generalize e : ([] : List (Gesto κ δ)) = gs at toca
  cases toca with
  | nada => rfl
  | pulsa toca up => simp at e
  | despulsa toca down => simp at e

/-- With a key down something has been played. -/
lemma ne_nil (toca : Toca gs ks) {k : κ} (down : k ∈ ks) : gs ≠ [] := by
  intro nil
  subst nil
  rw [toca.vacia] at down
  exact absurd down (Finset.notMem_empty k)

/-- The key that is pressed was up. -/
lemma apretada {k : κ} {d : δ} (toca : Toca (gs ++ [.pulsa k d]) ks) :
    ∃ ks', Toca gs ks' ∧ k ∉ ks' ∧ ks = insert k ks' := by
  generalize e : gs ++ [.pulsa k d] = hs at toca
  cases toca with
  | nada => simp at e
  | pulsa toca up =>
    have last := List.append_inj_right' e rfl
    cases last
    cases List.append_inj_left' e rfl
    exact ⟨_, toca, up, rfl⟩
  | despulsa toca down =>
    have last := List.append_inj_right' e rfl
    cases last

/-- The key that is released was down. -/
lemma soltada {k : κ} {d : δ} (toca : Toca (gs ++ [.despulsa k d]) ks) :
    ∃ ks', Toca gs ks' ∧ k ∈ ks' ∧ ks = ks'.erase k := by
  generalize e : gs ++ [.despulsa k d] = hs at toca
  cases toca with
  | nada => simp at e
  | pulsa toca up =>
    have last := List.append_inj_right' e rfl
    cases last
  | despulsa toca down =>
    have last := List.append_inj_right' e rfl
    cases last
    cases List.append_inj_left' e rfl
    exact ⟨_, toca, down, rfl⟩

/-- What has been played says which keys are down. -/
lemma unica {ks' : Finset κ} (toca : Toca gs ks) (toca' : Toca gs ks') : ks = ks' := by
  induction toca generalizing ks' with
  | nada => exact toca'.vacia.symm
  | pulsa _ _ ih =>
    obtain ⟨us, before, -, rfl⟩ := toca'.apretada
    rw [ih before]
  | despulsa _ _ ih =>
    obtain ⟨us, before, -, rfl⟩ := toca'.soltada
    rw [ih before]

/-- While a phrase is open, the key that opened it is down. -/
lemma abierta (toca : Toca gs ks) {a n} (open_ : frase gs = some (a, n)) : a ∈ ks ∧ 0 < n := by
  induction toca generalizing a n with
  | nada => cases open_
  | @pulsa gs ks k d toca up ih =>
    cases eq : frase gs with
    | none =>
      rw [frase_abre k d eq] at open_
      cases open_
      exact ⟨Finset.mem_insert_self k ks, Nat.one_pos⟩
    | some f =>
      rw [frase_sigue k d eq] at open_
      cases open_
      exact ⟨Finset.mem_insert_of_mem (ih eq).1, Nat.succ_pos _⟩
  | @despulsa gs ks k d toca down ih =>
    rw [frase_despulsa gs k d, Option.filter_eq_some_iff] at open_
    obtain ⟨eq, other⟩ := open_
    obtain ⟨held, pos⟩ := ih eq
    exact ⟨Finset.mem_erase.mpr ⟨Ne.symm (of_decide_eq_true other), held⟩, pos⟩

/-- With all keys up no phrase is open. -/
lemma cerrada (toca : Toca gs ∅) : frase gs = none := by
  cases eq : frase gs with
  | none => rfl
  | some f => exact absurd (toca.abierta eq).1 (Finset.notMem_empty _)

/-- The first thing a player does is a press. -/
lemma pulsada (toca : Toca gs ks) (ne : gs ≠ []) : ∃ k d, ultima gs = some (k, d) := by
  induction toca with
  | nada => exact absurd rfl ne
  | @pulsa gs ks k d toca up ih => exact ⟨k, d, ultima_pulsa gs k d⟩
  | @despulsa gs ks k d toca down ih =>
    rw [ultima_despulsa]
    apply ih
    exact toca.ne_nil down

end Toca

/-! ## Other names for the keys and the data -/

section Map
variable {κ' δ' : Type} [DecidableEq κ'] {f : κ → κ'} {g : δ → δ'}

/-- The same gesture at a keyboard whose keys and data have other names. -/
def map (f : κ → κ') (g : δ → δ') : Gesto κ δ → Gesto κ' δ'
  | .pulsa k d => .pulsa (f k) (g d)
  | .despulsa k d => .despulsa (f k) (g d)

/-- Different keys must have different names. -/
lemma Toca.map {gs : List (Gesto κ δ)} {ks : Finset κ} (toca : Toca gs ks) (inj : f.Injective) (g : δ → δ') :
    Toca (gs.map (Gesto.map f g)) (ks.image f) := by
  induction toca with
  | nada => exact .nada
  | @pulsa gs ks k d toca up ih =>
    rw [List.map_append, Finset.image_insert]
    refine .pulsa ih ?_
    rwa [inj.mem_finset_image]
  | @despulsa gs ks k d toca down ih =>
    rw [List.map_append, Finset.image_erase inj]
    refine .despulsa ih ?_
    rwa [inj.mem_finset_image]

/-- A phrase does not depend on the names of the keys. -/
lemma frase_map (inj : f.Injective) (gs : List (Gesto κ δ)) :
    frase (gs.map (Gesto.map f g)) = (frase gs).map fun p => (f p.1, p.2) := by
  induction gs using List.reverseRecOn with
  | nil => rfl
  | append_singleton gs x ih =>
    rw [List.map_append, List.map_singleton, frase_snoc, frase_snoc, ih]
    cases x with
    | pulsa k d => cases frase gs <;> rfl
    | despulsa k d =>
      cases frase gs with
      | none => rfl
      | some p => by_cases same : k = p.1 <;> simp [pasoFrase, Gesto.map, inj.eq_iff, same]

/-- The number of presses does not depend on the names of the keys. -/
lemma presiones_map (inj : f.Injective) (gs : List (Gesto κ δ)) :
    presiones (gs.map (Gesto.map f g)) = presiones gs := by
  rw [presiones, presiones, frase_map inj]
  cases frase gs <;> rfl

omit [DecidableEq κ] [DecidableEq κ'] in
/-- The most recent press has its other name. -/
lemma ultima_map (gs : List (Gesto κ δ)) :
    ultima (gs.map (Gesto.map f g)) = (ultima gs).map (Prod.map f g) := by
  induction gs using List.reverseRecOn with
  | nil => rfl
  | append_singleton gs x ih =>
    rw [List.map_append, List.map_singleton]
    cases x with
    | pulsa k d => rw [Gesto.map, ultima_pulsa, ultima_pulsa, Option.map_some, Prod.map_apply]
    | despulsa k d => rw [Gesto.map, ultima_despulsa, ultima_despulsa, ih]

end Map
end Gesto
