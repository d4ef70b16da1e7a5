import Mathlib.Data.Int.Notation
import TecMidi.Sync.Machine

/-!
# `sin_DDS`: the samples of a note

The phase accumulator `Q`, the table of phase increments by key, the table of a sine period and the
scaling by the velocity.
-/

/-- A sine period in 256 samples. -/
def sin256rom : List ℤ :=
  [0, 804, 1608, 2410, 3212, 4011, 4808, 5602, 6393, 7179, 7962, 8739, 9512, 10278, 11039, 11793,
    12539, 13279, 14010, 14732, 15446, 16151, 16846, 17530, 18204, 18868, 19519, 20159, 20787,
    21403, 22005, 22594, 23170, 23731, 24279, 24811, 25329, 25832, 26319, 26790, 27245, 27683,
    28105, 28510, 28898, 29268, 29621, 29956, 30273, 30571, 30852, 31113, 31356, 31580, 31785,
    31971, 32137, 32285, 32412, 32521, 32609, 32678, 32728, 32757, 32767, 32757, 32728, 32678,
    32609, 32521, 32412, 32285, 32137, 31971, 31785, 31580, 31356, 31113, 30852, 30571, 30273,
    29956, 29621, 29268, 28898, 28510, 28105, 27683, 27245, 26790, 26319, 25832, 25329, 24811,
    24279, 23731, 23170, 22594, 22005, 21403, 20787, 20159, 19519, 18868, 18204, 17530, 16846,
    16151, 15446, 14732, 14010, 13279, 12539, 11793, 11039, 10278, 9512, 8739, 7962, 7179, 6393,
    5602, 4808, 4011, 3212, 2410, 1608, 804, 0, -804, -1608, -2410, -3212, -4011, -4808, -5602,
    -6393, -7179, -7962, -8739, -9512, -10278, -11039, -11793, -12539, -13279, -14010, -14732,
    -15446, -16151, -16846, -17530, -18204, -18868, -19519, -20159, -20787, -21403, -22005, -22594,
    -23170, -23731, -24279, -24811, -25329, -25832, -26319, -26790, -27245, -27683, -28105, -28510,
    -28898, -29268, -29621, -29956, -30273, -30571, -30852, -31113, -31356, -31580, -31785, -31971,
    -32137, -32285, -32412, -32521, -32609, -32678, -32728, -32757, -32767, -32757, -32728, -32678,
    -32609, -32521, -32412, -32285, -32137, -31971, -31785, -31580, -31356, -31113, -30852, -30571,
    -30273, -29956, -29621, -29268, -28898, -28510, -28105, -27683, -27245, -26790, -26319, -25832,
    -25329, -24811, -24279, -23731, -23170, -22594, -22005, -21403, -20787, -20159, -19519, -18868,
    -18204, -17530, -16846, -16151, -15446, -14732, -14010, -13279, -12539, -11793, -11039, -10278,
    -9512, -8739, -7962, -7179, -6393, -5602, -4808, -4011, -3212, -2410, -1608, -804]

namespace SinDDS
open Sync

/-- The phase increment of a key: there is one for the keys 60 to 71. -/
def delta (key : BitVec 7) : BitVec 16 :=
  match key with
  | 0b0111100#7 => 0b0000100000111011#16
  | 0b0111101#7 => 0b0000100010111000#16
  | 0b0111110#7 => 0b0000100100111101#16
  | 0b0111111#7 => 0b0000100111001010#16
  | 0b1000000#7 => 0b0000101001011111#16
  | 0b1000001#7 => 0b0000101011111100#16
  | 0b1000010#7 => 0b0000101110100100#16
  | 0b1000011#7 => 0b0000110001010101#16
  | 0b1000100#7 => 0b0000110100010000#16
  | 0b1000101#7 => 0b0000110111010111#16
  | 0b1000110#7 => 0b0000111010101010#16
  | 0b1000111#7 => 0b0000111110001001#16
  | _ => 0x0000#16

/-- The input ports, without the clock and the reset. -/
structure In where
  nextsample : Bool
  enable : Bool
  vel : BitVec 7
  key : BitVec 7
deriving DecidableEq, Repr

/-- The word of the table at the top byte of the phase. -/
def datRom (q : BitVec 16) : BitVec 16 := BitVec.ofInt 16 (sin256rom.getD (q.extractLsb' 8 8).toNat 0)

/-- `resize` of a signed number to 16 bits: the sign and the low 15 bits. -/
def resize (x : BitVec 24) : BitVec 16 := x.extractLsb' 23 1 ++ x.extractLsb' 0 15

/-- The word scaled by the velocity. -/
def datX (q : BitVec 16) (vel : BitVec 7) : BitVec 16 :=
  resize (((datRom q).signExtend 24 * (0#1 ++ vel).signExtend 24).sshiftRight 7)

/-- The sample of a cycle. -/
def sample (q : BitVec 16) (i : In) : BitVec 16 := if i.enable = true then datX q i.vel else 0x0000#16

/-- Loads the accumulator. -/
def ld (i : In) : Bool := i.nextsample = true ∧ i.enable = true

/-- The phase after reset. -/
def reset : BitVec 16 := 0x0000#16

/-- `sin_DDS`: the phase is its state, and the settled sample its output. -/
def sinDDS : Machine (BitVec 16) In (BitVec 16) where
  next q i := if ld i = true then delta i.key + q else q
  out := sample

end SinDDS
