import TecMidi.Sync.Machine

/-!
# The two wires of a serial bus with start and stop conditions

The data wire `sda` is read when the clock `scl` rises. If it moves while the clock is high it is not data:
it falls for a start and it rises for a stop (`suceso`). A write is a start, the bytes, each one with its
most significant bit first and followed by an acknowledgement that is low, and a stop, before which the
clock rises once more with the wire low (`trama`).

`lector` reads the bus. `answers_trama` is the round trip: from whatever state, it reads a write.
-/

namespace Sync.Bus

/-- The wires in a cycle. -/
structure Lineas where
  scl : Bool
  sda : Bool
deriving DecidableEq, Repr

/-- What can be seen on the wires between two cycles. -/
inductive Suceso where
  | start
  | stop
  | bit (b : Bool)
deriving DecidableEq, Repr

/-- What happens on the wires between two cycles. -/
def suceso (x y : Lineas) : Option Suceso :=
  if x.scl = true ∧ y.scl = true then
    if x.sda = true ∧ y.sda = false then some .start
    else if x.sda = false ∧ y.sda = true then some .stop
    else none
  else if x.scl = false ∧ y.scl = true then some (.bit y.sda)
  else none

section
variable {x y : Lineas} {d e : Bool}

/-- Wires that do not change show no event. -/
lemma suceso_same : suceso x x = none := by
  obtain ⟨c, d⟩ := x
  cases c with
  | true => cases d <;> rfl
  | false => rfl

/-- Nothing happens when the clock falls. -/
lemma suceso_cae : suceso ⟨true, d⟩ ⟨false, e⟩ = none := rfl

/-- A bit is seen when the clock rises. -/
lemma suceso_sube : suceso ⟨false, d⟩ ⟨true, e⟩ = some (.bit e) := rfl

end

/-- The bits of a byte and its acknowledgement. -/
def octeto (v : BitVec 8) : List Suceso :=
  (List.range 8).map (fun i => .bit (v.getMsbD i)) ++ [.bit false]

/-- A write. -/
def trama (vs : List (BitVec 8)) : List Suceso := .start :: vs.flatMap octeto ++ [.bit false, .stop]

/-- What is read from the bus. -/
inductive Leido where
  | start
  | byte (v : BitVec 8)
  | stop
deriving DecidableEq, Repr

/-- A reader of the bus: the bits of the byte so far, and how many there are. -/
def lector : Transducer (BitVec 8 × ℕ) Suceso Leido where
  next s
    | .start | .stop => (s.1, 0)
    | .bit b => if s.2 < 8 then (s.1.shiftConcat b, s.2 + 1) else (s.1, 0)
  answer s
    | .start => some .start
    | .stop => some .stop
    | .bit b => if 8 ≤ s.2 ∧ b = false then some (.byte s.1) else none

/-- Bits are shifted in until there are eight. -/
lemma after_bits (f : ℕ → Bool) (r : BitVec 8) (k : ℕ) (le : k ≤ 8) :
    ∃ r', lector.after (r, 0) ((List.range k).map fun i => .bit (f i)) = (r', k) ∧
      lector.answers (r, 0) ((List.range k).map fun i => .bit (f i)) = [] ∧
      ∀ i < k, r'.getLsbD (k - 1 - i) = f i := by
  induction k with
  | zero => exact ⟨r, rfl, rfl, fun i lt => absurd lt (Nat.not_lt_zero i)⟩
  | succ k ih =>
    obtain ⟨r', after, quiet, bits⟩ := ih (Nat.le_of_succ_le le)
    refine ⟨r'.shiftConcat (f k), ?_, ?_, fun i lt => ?_⟩
    · rw [List.range_succ, List.map_append, Transducer.after_append, after]
      exact if_pos le
    · rw [List.range_succ, List.map_append, Transducer.answers_append, after, quiet]
      have few : ¬ (8 ≤ k ∧ f k = false) := fun full => absurd full.1 (Nat.not_le_of_lt le)
      exact congrArg (fun o : Option Leido => o.toList ++ []) (if_neg few)
    · rw [BitVec.getLsbD_shiftConcat, Nat.add_sub_cancel]
      rcases Nat.lt_succ_iff_lt_or_eq.mp lt with lt' | rfl
      · have inside : k - i < 8 := by omega
        rw [if_neg (by omega), show k - i - 1 = k - 1 - i by omega, bits i lt', decide_eq_true inside,
          Bool.true_and]
      · rw [Nat.sub_self, if_pos rfl, decide_eq_true (by decide), Bool.true_and]

/-- A byte is read as it was sent. -/
lemma answers_octeto (v r : BitVec 8) :
    lector.answers (r, 0) (octeto v) = [.byte v] ∧ ∃ r', lector.after (r, 0) (octeto v) = (r', 0) := by
  obtain ⟨r', after, quiet, bits⟩ := after_bits v.getMsbD r 8 (Nat.le_refl 8)
  obtain rfl : r' = v := by
    apply BitVec.eq_of_getLsbD_eq
    intro i lt
    have bit := bits (7 - i) (by omega)
    rw [BitVec.getMsbD, show 8 - 1 - (7 - i) = i by omega] at bit
    simpa [show 7 - i < 8 by omega] using bit
  constructor
  · rw [octeto, Transducer.answers_append, after, quiet]
    rfl
  · rw [octeto, Transducer.after_append, after]
    exact ⟨_, rfl⟩

/-- The reader reads the bytes from their bits and answers. -/
lemma answers_octetos (vs : List (BitVec 8)) (r : BitVec 8) :
    lector.answers (r, 0) (vs.flatMap octeto) = vs.map .byte ∧
      ∃ r', lector.after (r, 0) (vs.flatMap octeto) = (r', 0) := by
  induction vs generalizing r with
  | nil => exact ⟨rfl, r, rfl⟩
  | cons v vs ih =>
    obtain ⟨read, r', after⟩ := answers_octeto v r
    obtain ⟨read', last⟩ := ih r'
    rw [List.flatMap_cons, Transducer.answers_append, Transducer.after_append, after, read, read']
    exact ⟨rfl, last⟩

/-- A write is read as it was sent, whatever was on the bus before. -/
theorem answers_trama (vs : List (BitVec 8)) (s : BitVec 8 × ℕ) :
    lector.answers s (trama vs) = .start :: vs.map .byte ++ [.stop] := by
  obtain ⟨read, r', after⟩ := answers_octetos vs s.1
  rw [trama, List.cons_append, Transducer.answers_cons, Transducer.answers_append]
  change .start :: (lector.answers (s.1, 0) _ ++ lector.answers (lector.after (s.1, 0) _) _) = _
  rw [read, after]
  rfl

/-- So are writes in a row. -/
theorem answers_tramas (ws : List (List (BitVec 8))) (s : BitVec 8 × ℕ) :
    lector.answers s (ws.flatMap trama) = ws.flatMap fun vs => .start :: vs.map .byte ++ [.stop] := by
  induction ws generalizing s with
  | nil => rfl
  | cons vs ws ih =>
    rw [List.flatMap_cons, Transducer.answers_append, answers_trama, ih, List.flatMap_cons]

end Sync.Bus
