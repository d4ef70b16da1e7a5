import TecMidi.Sync.Machine

/-!
# Lines of segments

A line that is high except in *segments*: each one comes after a gap (possibly empty), takes `width a`
cycles and has the level `level a t` in its cycle `t`. What a segment is stays open (a frame, a glitch).

A receiver that is idle while the line is high and idle again after every segment it enters idle is idle at
the start of each of them (`enter`), and every cycle is spent in a segment or idle (`cover`). From that
`pulses` says exactly when it delivers what, and `holds` how long it shows the last value; `delivers` is
about the order alone.
-/

namespace Sync.Segments

variable {α β σ ο : Type*} (width : α → ℕ) (level : α → ℕ → Bool)

/-- The level of the line in every cycle. -/
def line : List (ℕ × α) → ℕ → Bool
  | [], _ => true
  | (gap, a) :: fs, t =>
    if t < gap then true
    else if t < gap + width a then level a (t - gap)
    else line fs (t - (gap + width a))

/-- The number of cycles until the last segment ends. -/
def total : List (ℕ × α) → ℕ
  | [] => 0
  | (gap, a) :: fs => gap + width a + total fs

/-- The segments with the cycles in which they start. -/
def starts : List (ℕ × α) → List (ℕ × α)
  | [] => []
  | (gap, a) :: fs => (gap, a) :: (starts fs).map fun f => (gap + width a + f.1, f.2)

/-- The segments start in their order. -/
lemma starts_snd (fs : List (ℕ × α)) : (starts width fs).map Prod.snd = fs.map Prod.snd := by
  induction fs with
  | nil => rfl
  | cons f fs ih =>
    rw [starts, List.map_cons, List.map_cons, List.map_map, ← ih]
    rfl

/-- The segments start one after the end of the other. -/
lemma starts_ordered (fs : List (ℕ × α)) :
    (starts width fs).Pairwise fun f g => f.1 + width f.2 ≤ g.1 := by
  induction fs with
  | nil => exact .nil
  | cons f fs ih =>
    refine .cons ?_ (List.pairwise_map.mpr (ih.imp fun le => ?_))
    · intro g mem
      obtain ⟨g', -, rfl⟩ := List.mem_map.mp mem
      exact Nat.le_add_right _ _
    · rw [Nat.add_assoc]
      exact Nat.add_le_add_left le _

variable {width level} {gap t : ℕ} {a : α} {fs : List (ℕ × α)}

/-- The line is high in a gap. -/
lemma line_gap (h : t < gap) : line width level ((gap, a) :: fs) t = true := by
  rw [line, if_pos h]

/-- After the gap the line carries the segment. -/
lemma line_head (h : t < width a) : shift gap (line width level ((gap, a) :: fs)) t = level a t := by
  rw [shift_apply, line, if_neg (by omega), if_pos (by omega), Nat.add_sub_cancel_left]

/-- After its first segment the line carries the rest. -/
lemma line_rest : shift (gap + width a) (line width level ((gap, a) :: fs)) = line width level fs := by
  funext t
  rw [shift_apply, line, if_neg (by omega), if_neg (by omega), Nat.add_sub_cancel_left]

/-- The receiver `M` is idle on a high line, and again after every segment. -/
structure Receives (width : α → ℕ) (level : α → ℕ → Bool) (M : Machine σ Bool ο) (Idle : σ → Prop) :
    Prop where
  high : ∀ s, Idle s → Idle (M.next s true)
  segment : ∀ a s w, Idle s → (∀ t < width a, w t = level a t) → Idle (M.run s w (width a))

namespace Receives

variable {M : Machine σ Bool ο} {Idle : σ → Prop} (rcv : Receives width level M Idle) {s : σ}

include rcv

/-- A high line keeps the receiver idle. -/
lemma run_high (idle : Idle s) {w : ℕ → Bool} {n : ℕ} (hw : ∀ t < n, w t = true) :
    Idle (M.run s w n) := by
  induction n with
  | zero => exact idle
  | succ n ih =>
    rw [Machine.run_succ, hw n (Nat.lt_succ_self n)]
    exact rcv.high _ (ih fun t ht => hw t (Nat.lt_succ_of_lt ht))

/-- The receiver is idle after a gap and the segment that follows. -/
lemma run_rest (idle : Idle s) (gap : ℕ) (a : α) (fs : List (ℕ × α)) :
    Idle (M.run s (line width level ((gap, a) :: fs)) (gap + width a)) := by
  rw [Machine.run_add]
  exact rcv.segment a _ _ (rcv.run_high idle fun t ht => line_gap ht) fun t ht => line_head ht

/-- It enters every segment idle. -/
theorem enter (idle : Idle s) {f : ℕ × α} (mem : f ∈ starts width fs) :
    Idle (M.run s (line width level fs) f.1) ∧
      ∀ t < width f.2, shift f.1 (line width level fs) t = level f.2 t := by
  induction fs generalizing s f with
  | nil => cases mem
  | cons g fs ih =>
    obtain ⟨gap, a⟩ := g
    rcases List.mem_cons.mp mem with rfl | mem'
    · exact ⟨rcv.run_high idle fun t ht => line_gap ht, fun t ht => line_head ht⟩
    · obtain ⟨f, mem'', rfl⟩ := List.mem_map.mp mem'
      obtain ⟨idle', agree⟩ := ih (rcv.run_rest idle gap a fs) mem''
      refine ⟨?_, ?_⟩
      · rw [Machine.run_add, line_rest]
        exact idle'
      · rw [← shift_shift, line_rest]
        exact agree

/-- Every cycle is spent in a segment, or idle on a high line. -/
theorem cover (idle : Idle s) (fs : List (ℕ × α)) (t : ℕ) :
    (∃ f ∈ starts width fs, f.1 ≤ t ∧ t < f.1 + width f.2) ∨
      Idle (M.run s (line width level fs) t) ∧ line width level fs t = true := by
  induction fs generalizing s t with
  | nil => exact .inr ⟨rcv.run_high idle fun _ _ => rfl, rfl⟩
  | cons g fs ih =>
    obtain ⟨gap, a⟩ := g
    rcases Nat.lt_or_ge t gap with lt | ge
    · exact .inr ⟨rcv.run_high idle fun u hu => line_gap (Nat.lt_trans hu lt), line_gap lt⟩
    rcases Nat.lt_or_ge t (gap + width a) with lt' | ge'
    · exact .inl ⟨(gap, a), List.mem_cons_self .., ge, lt'⟩
    obtain ⟨u, rfl⟩ := Nat.exists_eq_add_of_le ge'
    rcases ih (rcv.run_rest idle gap a fs) u with ⟨f, mem, lo, hi⟩ | ⟨idle', high⟩
    · refine .inl ⟨_, List.mem_cons_of_mem _ (List.mem_map_of_mem mem), ?_, ?_⟩
      · exact Nat.add_le_add_left lo _
      · show gap + width a + u < gap + width a + f.1 + width f.2
        omega
    · right
      refine ⟨?_, ?_⟩
      · rw [Machine.run_add, line_rest]
        exact idle'
      · have rest : shift (gap + width a) (line width level ((gap, a) :: fs)) u = true := by
          rw [line_rest]
          exact high
        exact rest

/-- A receiver that is silent while idle and delivers `ev a` in the cycles of a segment delivers just that
on a line of segments. -/
theorem pulses {tok : ο → Option β} (ev : α → ℕ → Option β)
    (quiet : ∀ s, Idle s → tok (M.out s true) = none)
    (one : ∀ a s w, Idle s → (∀ t < width a, w t = level a t) →
      ∀ t < width a, tok (M.wave s w t) = ev a t)
    (idle : Idle s) (fs : List (ℕ × α)) (t : ℕ) (b : β) :
    tok (M.wave s (line width level fs) t) = some b ↔
      ∃ f ∈ starts width fs, f.1 ≤ t ∧ t < f.1 + width f.2 ∧ ev f.2 (t - f.1) = some b := by
  have inside (f : ℕ × α) (mem : f ∈ starts width fs) (lo : f.1 ≤ t) (hi : t < f.1 + width f.2) :
      tok (M.wave s (line width level fs) t) = ev f.2 (t - f.1) := by
    obtain ⟨idle', agree⟩ := rcv.enter idle mem
    obtain ⟨u, rfl⟩ := Nat.exists_eq_add_of_le lo
    have here := one f.2 _ _ idle' agree u (Nat.lt_of_add_lt_add_left hi)
    rw [Nat.add_sub_cancel_left, ← here]
    exact congrFun (Machine.shift_events M s (line width level fs) tok f.1) u
  constructor
  · intro delivered
    rcases rcv.cover idle fs t with ⟨f, mem, lo, hi⟩ | ⟨idle', high⟩
    · exact ⟨f, mem, lo, hi, (inside f mem lo hi).symm.trans delivered⟩
    · rw [Machine.wave, high, quiet _ idle'] at delivered
      cases delivered
  · rintro ⟨f, mem, lo, hi, eq⟩
    exact (inside f mem lo hi).trans eq

/-- A receiver that is silent while idle delivers nothing on a high line. -/
lemma high_silent {tok : ο → Option β} (quiet : ∀ s, Idle s → tok (M.out s true) = none)
    (idle : Idle s) {w : ℕ → Bool} {n : ℕ} (hw : ∀ t < n, w t = true) :
    log (fun t => tok (M.wave s w t)) n = [] := by
  refine log_eq_nil fun t ht => ?_
  rw [Machine.wave, hw t ht]
  exact quiet _ (rcv.run_high idle fun u hu => hw u (Nat.lt_trans hu ht))

/-- What it delivers in each segment is delivered in the order of the segments. -/
theorem delivers {tok : ο → Option β} {ev : α → List β}
    (quiet : ∀ s, Idle s → tok (M.out s true) = none)
    (one : ∀ a s w, Idle s → (∀ t < width a, w t = level a t) →
      log (fun t => tok (M.wave s w t)) (width a) = ev a)
    (idle : Idle s) (fs : List (ℕ × α)) {n : ℕ} (long : total width fs ≤ n) :
    Idle (M.run s (line width level fs) n) ∧
      log (fun t => tok (M.wave s (line width level fs) t)) n = fs.flatMap fun f => ev f.2 := by
  induction fs generalizing s n with
  | nil => exact ⟨rcv.run_high idle fun _ _ => rfl, rcv.high_silent quiet idle fun _ _ => rfl⟩
  | cons f fs ih =>
    obtain ⟨gap, a⟩ := f
    obtain ⟨k, rfl⟩ := Nat.exists_eq_add_of_le long
    have cut : total width ((gap, a) :: fs) + k = gap + width a + (total width fs + k) := by
      rw [total, Nat.add_assoc _ _ k]
    have gap_high : ∀ t < gap, line width level ((gap, a) :: fs) t = true := fun t ht => line_gap ht
    have idle' := rcv.run_rest idle gap a fs
    obtain ⟨idle'', rest⟩ := ih (n := total width fs + k) idle' (Nat.le_add_right _ _)
    have segment := one a _ (shift gap (line width level ((gap, a) :: fs))) (rcv.run_high idle gap_high)
      fun t ht => line_head ht
    refine ⟨?_, ?_⟩
    · rw [cut, Machine.run_add, line_rest]
      exact idle''
    · rw [cut, Machine.log_wave_add, line_rest, rest, Machine.log_wave_add,
        rcv.high_silent quiet idle gap_high, segment]
      rfl

section Holds

variable (val : σ → β) {v : α → β} {D E : ℕ} (keep : ∀ s, Idle s → val (M.next s true) = val s)
  (old : ∀ a s w, Idle s → (∀ t < width a, w t = level a t) →
    ∀ t < width a, t ≤ E → val (M.run s w t) = val s)
  (new : ∀ a s w, Idle s → (∀ t < width a, w t = level a t) →
    ∀ t, D ≤ t → t ≤ width a → val (M.run s w t) = v a)

include keep

/-- A high line keeps a value that its edges keep. -/
lemma high_holds (idle : Idle s) {w : ℕ → Bool} {n : ℕ} (hw : ∀ t < n, w t = true) :
    val (M.run s w n) = val s := by
  induction n with
  | zero => rfl
  | succ n ih =>
    have hw' : ∀ t < n, w t = true := fun t ht => hw t (Nat.lt_succ_of_lt ht)
    rw [Machine.run_succ, hw n (Nat.lt_succ_self n), keep _ (rcv.run_high idle hw'), ih hw']

include old

/-- A value is shown until cycle `E` of the next segment. -/
lemma holds_before (pos : ∀ a, E < width a) (idle : Idle s) {u : ℕ}
    (next : ∀ g ∈ starts width fs, u ≤ g.1 + E) : val (M.run s (line width level fs) u) = val s := by
  cases fs with
  | nil => exact rcv.high_holds val keep idle fun _ _ => rfl
  | cons f fs =>
    obtain ⟨gap, a⟩ := f
    rcases Nat.lt_or_ge u gap with lt | ge
    · exact rcv.high_holds val keep idle fun t ht => line_gap (Nat.lt_trans ht lt)
    · obtain ⟨t, rfl⟩ := Nat.exists_eq_add_of_le ge
      have le := next (gap, a) (List.mem_cons_self ..)
      have wide := pos a
      have gap_high : ∀ t < gap, line width level ((gap, a) :: fs) t = true := fun t ht => line_gap ht
      rw [Machine.run_add, old a _ _ (rcv.run_high idle gap_high) (fun t ht => line_head ht) t
        (by omega) (by omega)]
      exact rcv.high_holds val keep idle gap_high

include new

/-- The value of a segment is shown from its cycle `D` until cycle `E` of the next one. -/
theorem holds (pos : ∀ a, E < width a) (long : ∀ a, D ≤ width a) (idle : Idle s) {f : ℕ × α}
    (mem : f ∈ starts width fs) {u : ℕ} (lo : f.1 + D ≤ u) (next : ∀ g ∈ starts width fs, f.1 < g.1 → u ≤ g.1 + E) :
    val (M.run s (line width level fs) u) = v f.2 := by
  induction fs generalizing s f u with
  | nil => cases mem
  | cons g fs ih =>
    obtain ⟨gap, a⟩ := g
    have idle' := rcv.run_rest idle gap a fs
    have later (g : ℕ × α) (mem : g ∈ starts width fs) :
        (gap + width a + g.1, g.2) ∈ starts width ((gap, a) :: fs) :=
      List.mem_cons_of_mem _ (List.mem_map_of_mem mem)
    rcases List.mem_cons.mp mem with rfl | mem'
    · have wide := pos a
      have gap_high : ∀ t < gap, line width level ((gap, a) :: fs) t = true := fun t ht => line_gap ht
      have own (t : ℕ) (ge : D ≤ t) (le : t ≤ width a) :
          val (M.run s (line width level ((gap, a) :: fs)) (gap + t)) = v a := by
        rw [Machine.run_add]
        exact new a _ _ (rcv.run_high idle gap_high) (fun t ht => line_head ht) t ge le
      rcases Nat.le_total u (gap + width a) with le | ge
      · obtain ⟨t, rfl⟩ := Nat.exists_eq_add_of_le (show gap ≤ u by simp only at lo; omega)
        simp only at lo
        exact own t (by omega) (by omega)
      · obtain ⟨t, rfl⟩ := Nat.exists_eq_add_of_le ge
        have last := own (width a) (long a) (Nat.le_refl _)
        rw [Machine.run_add, line_rest, ← last]
        apply rcv.holds_before val keep old pos idle'
        intro g after
        have le := next _ (later g after) (show gap < gap + width a + g.1 by omega)
        simp only at le
        omega
    · obtain ⟨f, mem'', rfl⟩ := List.mem_map.mp mem'
      obtain ⟨t, rfl⟩ := Nat.exists_eq_add_of_le (show gap + width a ≤ u by simp only at lo; omega)
      rw [Machine.run_add, line_rest]
      simp only at lo
      refine ih idle' mem'' (by omega) ?_
      intro g after lt
      have le := next _ (later g after) (show gap + width a + f.1 < gap + width a + g.1 by omega)
      simp only at le
      omega

end Holds

end Receives
end Sync.Segments
