import Mathlib.Data.Nat.Bitwise
import Mathlib.Tactic.Common

/-!
# Reflected cyclic redundancy checks

The register is shifted towards its low end, and the polynomial is added when
a one leaves it.  A shift is linear, so that the shifts of a byte can be read
from a table.
-/

namespace FileServer.Checksum

variable {width : Nat} (polynomial : BitVec width)

def shift (register : BitVec width) : BitVec width :=
  if register.getLsbD 0 then (register >>> 1) ^^^ polynomial else register >>> 1

def shifts : Nat → BitVec width → BitVec width
  | 0, register => register
  | count + 1, register => shifts count (shift polynomial register)

def feed (register : BitVec width) (byte : UInt8) : BitVec width :=
  shifts polynomial 8 (register ^^^ byte.toBitVec.setWidth width)

/-- The check of the bytes, with a register of ones at first and complemented
at the end. -/
def check (bytes : List UInt8) : BitVec width :=
  bytes.foldl (feed polynomial) (BitVec.allOnes width) ^^^ BitVec.allOnes width

variable {polynomial}

theorem shift_xor (first second : BitVec width) :
    shift polynomial (first ^^^ second) = shift polynomial first ^^^ shift polynomial second := by
  have cancel : ∀ x y : BitVec width, x ^^^ polynomial ^^^ (y ^^^ polynomial) = x ^^^ y := by
    intro x y
    rw [BitVec.xor_assoc, BitVec.xor_comm y, ← BitVec.xor_assoc polynomial, BitVec.xor_self,
      BitVec.zero_xor]
  unfold shift
  rw [BitVec.getLsbD_xor, BitVec.ushiftRight_xor_distrib]
  cases first.getLsbD 0 <;> cases second.getLsbD 0
  · rfl
  · simp [BitVec.xor_assoc]
  · simp only [Bool.xor_false, if_true, Bool.false_eq_true, if_false]
    rw [BitVec.xor_assoc, BitVec.xor_comm (second >>> 1), ← BitVec.xor_assoc]
  · simp [cancel]

theorem shifts_xor (count : Nat) (first second : BitVec width) :
    shifts polynomial count (first ^^^ second) =
      shifts polynomial count first ^^^ shifts polynomial count second := by
  induction count generalizing first second with
  | zero => rfl
  | succ count inductionHypothesis => rw [shifts, shift_xor, inductionHypothesis, shifts, shifts]

/-- Zeros that leave the register add nothing. -/
theorem shifts_clear (count : Nat) (register : BitVec width)
    (clear : ∀ position < count, register.getLsbD position = false) :
    shifts polynomial count register = register >>> count := by
  induction count generalizing register with
  | zero => simp [shifts]
  | succ count inductionHypothesis =>
      have low : shift polynomial register = register >>> 1 := by
        simp [shift, clear 0 (Nat.succ_pos count)]
      rw [shifts, low, inductionHypothesis _ fun position inRange => by
        rw [BitVec.getLsbD_ushiftRight]
        exact clear _ (by omega), ← BitVec.shiftRight_add, Nat.add_comm]

theorem shifts_split (count : Nat) (low register : BitVec width)
    (agree : ∀ position, low.getLsbD position =
      (decide (position < count) && register.getLsbD position)) :
    shifts polynomial count register = shifts polynomial count low ^^^ register >>> count := by
  have clear : ∀ position < count, (low ^^^ register).getLsbD position = false := by
    intro position inRange
    simp [BitVec.getLsbD_xor, agree, inRange]
  have high : (low ^^^ register) >>> count = register >>> count := by
    apply BitVec.eq_of_getLsbD_eq
    intro position _
    simp [BitVec.getLsbD_ushiftRight, BitVec.getLsbD_xor, agree, show ¬count + position < count by omega]
  have parts : register = low ^^^ (low ^^^ register) := by
    rw [← BitVec.xor_assoc, BitVec.xor_self, BitVec.zero_xor]
  rw [parts, shifts_xor, shifts_clear count _ clear, ← parts, high]

end FileServer.Checksum
