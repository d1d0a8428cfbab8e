import Mathlib.Tactic.Common
import Mathlib.Tactic.Ring

/-!
# Cutting a list into pieces

A list is cut into pieces of one width, the last of which may be shorter.
Joining the pieces gives back the list.
-/

namespace FileServer.Sequence

universe u

variable {α : Type u}

def pieceCount (size width : Nat) : Nat := (size + width - 1) / width

def piece (width : Nat) (xs : List α) (position : Nat) : List α :=
  (xs.drop (position * width)).take width

theorem length_piece (width : Nat) (xs : List α) (position : Nat) :
    (piece width xs position).length = min width (xs.length - position * width) := by
  simp [piece]

theorem size_le_pieceCount_mul {size width : Nat} (positive : 0 < width) :
    size ≤ pieceCount size width * width := by
  unfold pieceCount
  have division := Nat.div_add_mod (size + width - 1) width
  have remainder := Nat.mod_lt (size + width - 1) positive
  rw [Nat.mul_comm] at division
  omega

theorem mul_lt_of_lt_pieceCount {size width position : Nat} (positive : 0 < width)
    (inRange : position < pieceCount size width) : position * width < size := by
  unfold pieceCount at inRange
  have bound := (Nat.le_div_iff_mul_le positive).mp (Nat.succ_le_of_lt inRange)
  rw [Nat.succ_mul] at bound
  omega

theorem flatMap_piece_range (width : Nat) (xs : List α) (count : Nat) :
    (List.range count).flatMap (piece width xs) = xs.take (count * width) := by
  induction count with
  | zero => simp
  | succ count inductionHypothesis =>
      rw [List.range_succ, List.flatMap_append, inductionHypothesis, List.flatMap_singleton, piece,
        Nat.succ_mul, List.take_add]

theorem flatMap_piece {width : Nat} (positive : 0 < width) (xs : List α) :
    (List.range (pieceCount xs.length width)).flatMap (piece width xs) = xs := by
  rw [flatMap_piece_range, List.take_of_length_le (size_le_pieceCount_mul positive)]

theorem sum_lengths {width : Nat} (positive : 0 < width) (size : Nat) :
    ((List.range (pieceCount size width)).map fun position =>
      min width (size - position * width)).sum = size := by
  have joined := congrArg List.length (flatMap_piece positive (List.replicate size ()))
  rw [List.length_flatMap, List.length_replicate] at joined
  simpa [length_piece] using joined

end FileServer.Sequence
