import Mathlib.Data.Nat.Notation
import Mathlib.Tactic.Common

/-!
# The note logic of `main`

The local variables of `main` from which the note of the codec is computed, and what the loop does to
them for an event. `n_teclas` is an `int` of 32 bits; `PrimeraTecla` and `TeclaActual` have no initial
value in the source.
-/

/-- The variables of the note logic. -/
structure Nota where
  notavel : BitVec 32
  nTeclas : BitVec 32
  primeraTecla : BitVec 32
  teclaActual : BitVec 32
deriving DecidableEq, Repr

namespace Nota

/-- At the start of the loop. -/
def inicial (primeraTecla teclaActual : BitVec 32) : Nota :=
  ⟨0x17F43#32, 0#32, primeraTecla, teclaActual⟩

/-- A key has been pressed. -/
def pulsa (n : Nota) (rDato : BitVec 32) : Nota :=
  { n with
    notavel := rDato ||| 0x10000#32
    primeraTecla := if n.nTeclas = 0#32 then rDato &&& 0xFF#32 else n.primeraTecla
    nTeclas := n.nTeclas + 1#32 }

/-- A key has been released; only the first one counts. -/
def despulsa (n : Nota) (rDato : BitVec 32) : Nota :=
  if rDato &&& 0xFF#32 = n.primeraTecla then
    { n with
      teclaActual := rDato &&& 0xFF#32
      notavel := n.notavel &&& 0xFFFF#32
      nTeclas := 0#32 }
  else { n with teclaActual := rDato &&& 0xFF#32 }

/-- The event read as `estado` and `rDato`: any `estado` but `0x5` is a release. -/
def aplica (n : Nota) (estado rDato : BitVec 32) : Nota :=
  if estado = 0x5#32 then n.pulsa rDato else n.despulsa rDato

/-- The events of a list, in order. -/
def aplicaTodos (n : Nota) (es : List (BitVec 32 × BitVec 32)) : Nota :=
  es.foldl (fun n e => n.aplica e.1 e.2) n

/-- The events of two lists one after the other. -/
lemma aplicaTodos_append (n : Nota) (es fs : List (BitVec 32 × BitVec 32)) :
    n.aplicaTodos (es ++ fs) = (n.aplicaTodos es).aplicaTodos fs := List.foldl_append

end Nota
