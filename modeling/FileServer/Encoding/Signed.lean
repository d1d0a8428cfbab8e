import FileServer.Transition.Guarded
import Mathlib.Tactic.Ring

/-!
# Signed arithmetic that must not overflow

The sum and the difference of two signed words, and a failure where they do not
fit.
-/

namespace FileServer.Encoding

open FileServer.Transition

variable {Failure : Type}

/-- Addition of signed words, undefined on overflow. -/
def checkedAdd (overflow : Failure) (x y : Int64) : Except Failure Int64 := do
  require ((x + y).toInt = x.toInt + y.toInt) overflow
  return x + y

/-- Subtraction of signed words, undefined on overflow. -/
def checkedSub (overflow : Failure) (x y : Int64) : Except Failure Int64 := do
  require ((x - y).toInt = x.toInt - y.toInt) overflow
  return x - y

theorem toInt_add {x y : Int64} (low : -2 ^ 63 ≤ x.toInt + y.toInt)
    (high : x.toInt + y.toInt < 2 ^ 63) : (x + y).toInt = x.toInt + y.toInt := by
  rw [Int64.toInt_add]
  exact Int.bmod_eq_of_le (by omega) (by omega)

theorem toInt_sub {x y : Int64} (low : -2 ^ 63 ≤ x.toInt - y.toInt)
    (high : x.toInt - y.toInt < 2 ^ 63) : (x - y).toInt = x.toInt - y.toInt := by
  rw [Int64.toInt_sub]
  exact Int.bmod_eq_of_le (by omega) (by omega)

theorem max_toInt (x y : Int64) : (max x y).toInt = max x.toInt y.toInt := by
  show (if x ≤ y then y else x).toInt = _
  split
  next ordered => exact (max_eq_right (Int64.le_iff_toInt_le.mp ordered)).symm
  next larger =>
    rw [Int64.le_iff_toInt_le] at larger
    exact (max_eq_left (by omega)).symm

theorem checkedAdd_eq_ok {overflow : Failure} {x y : Int64} (low : -2 ^ 63 ≤ x.toInt + y.toInt)
    (high : x.toInt + y.toInt < 2 ^ 63) : checkedAdd overflow x y = .ok (x + y) :=
  bind_eq_ok.mpr ⟨(), require_eq_ok.mpr (toInt_add low high), rfl⟩

theorem checkedSub_eq_ok {overflow : Failure} {x y : Int64} (low : -2 ^ 63 ≤ x.toInt - y.toInt)
    (high : x.toInt - y.toInt < 2 ^ 63) : checkedSub overflow x y = .ok (x - y) :=
  bind_eq_ok.mpr ⟨(), require_eq_ok.mpr (toInt_sub low high), rfl⟩

theorem checkedAdd_ok {overflow : Failure} {x y sum : Int64}
    (added : checkedAdd overflow x y = .ok sum) :
    (x + y).toInt = x.toInt + y.toInt ∧ sum = x + y := by
  simp only [checkedAdd, bind_eq_ok, require_eq_ok, pure_eq_ok] at added
  obtain ⟨_, exactly, rfl⟩ := added
  exact ⟨exactly, rfl⟩

end FileServer.Encoding
