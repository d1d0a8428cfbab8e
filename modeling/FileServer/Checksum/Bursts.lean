import FileServer.Checksum.Reflected
import Mathlib.Algebra.Order.Ring.Nat
import Mathlib.Data.Nat.Digits.Lemmas

/-!
# Bursts

A shift loses nothing when the polynomial has its top bit, so that a difference
between two registers stays.  Bytes that fit the register side by side are
determined by what they make of it; a change of so few bytes is always seen.
-/

namespace FileServer.Checksum

variable {width : Nat} {polynomial : BitVec width}

theorem shifts_append (first second : Nat) (register : BitVec width) :
    shifts polynomial (first + second) register =
      shifts polynomial second (shifts polynomial first register) := by
  induction first generalizing register with
  | zero => rw [Nat.zero_add, shifts]
  | succ first inductionHypothesis =>
      rw [Nat.succ_add, shifts, inductionHypothesis, shifts]

theorem feed_xor (register difference : BitVec width) (byte : UInt8) :
    feed polynomial (register ^^^ difference) byte =
      feed polynomial register byte ^^^ shifts polynomial 8 difference := by
  rw [feed, feed, ← shifts_xor, BitVec.xor_assoc, BitVec.xor_comm difference, ← BitVec.xor_assoc]

theorem foldl_feed_xor (bytes : List UInt8) (register difference : BitVec width) :
    bytes.foldl (feed polynomial) (register ^^^ difference) =
      bytes.foldl (feed polynomial) register ^^^
        shifts polynomial (8 * bytes.length) difference := by
  induction bytes generalizing register difference with
  | nil => rfl
  | cons byte bytes inductionHypothesis =>
      rw [List.foldl_cons, feed_xor, inductionHypothesis, List.foldl_cons, List.length_cons,
        Nat.mul_succ, Nat.add_comm, shifts_append]

/-- The bytes side by side, the first one lowest. -/
def word (bytes : List UInt8) : BitVec width :=
  .ofNat width (Nat.ofDigits 256 (bytes.map UInt8.toNat))

theorem bytes_lt (bytes : List UInt8) : ∀ n ∈ bytes.map UInt8.toNat, n < 256 := by
  intro n member
  obtain ⟨byte, _, rfl⟩ := List.mem_map.mp member
  exact byte.toNat_lt

theorem ofDigits_lt (bytes : List UInt8) (fits : 8 * bytes.length ≤ width) :
    Nat.ofDigits 256 (bytes.map UInt8.toNat) < 2 ^ width := by
  have below := Nat.ofDigits_lt_base_pow_length (by decide : 1 < 256) (bytes_lt bytes)
  rw [List.length_map, show 256 = 2 ^ 8 from rfl, ← Nat.pow_mul] at below
  exact Nat.lt_of_lt_of_le below (Nat.pow_le_pow_right (by decide) fits)

theorem toNat_word {bytes : List UInt8} (fits : 8 * bytes.length ≤ width) :
    (word bytes : BitVec width).toNat = Nat.ofDigits 256 (bytes.map UInt8.toNat) := by
  rw [word, BitVec.toNat_ofNat, Nat.mod_eq_of_lt (ofDigits_lt bytes fits)]

theorem word_injective {first second : List UInt8} (fits : 8 * first.length ≤ width)
    (length : second.length = first.length)
    (same : (word first : BitVec width) = word second) : first = second := by
  have numbers := congrArg BitVec.toNat same
  rw [toNat_word fits, toNat_word (by rwa [length])] at numbers
  have digits := Nat.ofDigits_inj_of_len_eq (by decide : 1 < 256) (by simp [length])
    (bytes_lt first) (bytes_lt second) numbers
  exact List.map_injective_iff.mpr (fun _ _ => UInt8.toNat_inj.mp) digits

theorem shifts_word (byte : UInt8) (bytes : List UInt8)
    (fits : 8 * (byte :: bytes).length ≤ width) :
    shifts polynomial 8 (word (byte :: bytes)) =
      shifts polynomial 8 (byte.toBitVec.setWidth width) ^^^ word bytes := by
  have whole : (word (byte :: bytes) : BitVec width).toNat =
      byte.toNat + 256 * Nat.ofDigits 256 (bytes.map UInt8.toNat) := by
    rw [toNat_word fits]
    rfl
  have small := byte.toNat_lt
  rw [List.length_cons] at fits
  have rest : (word (byte :: bytes) : BitVec width) >>> 8 = word bytes := by
    apply BitVec.eq_of_toNat_eq
    rw [BitVec.toNat_ushiftRight, whole, Nat.shiftRight_eq_div_pow, toNat_word (by omega)]
    omega
  rw [← rest]
  refine shifts_split 8 _ _ fun position => ?_
  have low : byte.toNat = (word (byte :: bytes) : BitVec width).toNat % 2 ^ 8 := by
    rw [whole]
    omega
  rw [BitVec.getLsbD_setWidth]
  by_cases inside : position < width
  · simp only [inside, decide_true, Bool.true_and]
    show byte.toNat.testBit position = _
    rw [low, Nat.testBit_mod_two_pow]
    rfl
  · simp [inside, BitVec.getLsbD_of_ge _ _ (Nat.le_of_not_lt inside)]

/-- What a few bytes make of an empty register. -/
theorem foldl_feed_zero (bytes : List UInt8) (fits : 8 * bytes.length ≤ width) :
    bytes.foldl (feed polynomial) (BitVec.ofNat width 0) =
      shifts polynomial (8 * bytes.length) (word bytes) := by
  induction bytes with
  | nil => rfl
  | cons byte bytes inductionHypothesis =>
      have shorter : 8 * bytes.length ≤ width := by
        rw [List.length_cons] at fits
        omega
      have start : feed polynomial (BitVec.ofNat width 0) byte =
          (BitVec.ofNat width 0) ^^^ shifts polynomial 8 (byte.toBitVec.setWidth width) := by
        rw [feed, BitVec.zero_xor, BitVec.zero_xor]
      rw [List.foldl_cons, start, foldl_feed_xor, inductionHypothesis shorter, List.length_cons,
        Nat.mul_succ, Nat.add_comm, shifts_append, shifts_word byte bytes fits, ← shifts_xor,
        BitVec.xor_comm]

section TopBit

variable (top : polynomial.getLsbD (width - 1) = true)
include top

theorem shift_injective {first second : BitVec width}
    (same : shift polynomial first = shift polynomial second) : first = second := by
  have positive : 0 < width := by
    rcases Nat.eq_zero_or_pos width with rfl | positive
    · rw [BitVec.getLsbD_of_ge _ _ (Nat.le_refl _)] at top
      cases top
    · exact positive
  have left : ∀ register : BitVec width,
      (shift polynomial register).getLsbD (width - 1) = register.getLsbD 0 := by
    intro register
    unfold shift
    split
    next set =>
      rw [BitVec.getLsbD_xor, BitVec.getLsbD_ushiftRight,
        BitVec.getLsbD_of_ge _ _ (by omega), top, set]
      rfl
    next clear =>
      rw [BitVec.getLsbD_ushiftRight, BitVec.getLsbD_of_ge _ _ (by omega)]
      simpa using clear
  have lowest : first.getLsbD 0 = second.getLsbD 0 := by rw [← left, same, left]
  have shifted : first >>> 1 = second >>> 1 := by
    unfold shift at same
    rw [lowest] at same
    split at same
    · exact BitVec.xor_right_inj polynomial |>.mp (by simpa [BitVec.xor_comm] using same)
    · exact same
  apply BitVec.eq_of_getLsbD_eq
  intro position _
  cases position with
  | zero => exact lowest
  | succ position =>
      have bits := congrArg (BitVec.getLsbD · position) shifted
      simpa [BitVec.getLsbD_ushiftRight, Nat.add_comm] using bits

theorem shifts_injective (count : Nat) {first second : BitVec width}
    (same : shifts polynomial count first = shifts polynomial count second) : first = second := by
  induction count generalizing first second with
  | zero => exact same
  | succ count inductionHypothesis => exact shift_injective top (inductionHypothesis same)

theorem foldl_feed_injective (bytes : List UInt8) {first second : BitVec width}
    (same : bytes.foldl (feed polynomial) first = bytes.foldl (feed polynomial) second) :
    first = second := by
  have difference : ∀ register : BitVec width, bytes.foldl (feed polynomial) register =
      bytes.foldl (feed polynomial) (BitVec.ofNat width 0) ^^^
        shifts polynomial (8 * bytes.length) register := by
    intro register
    rw [← foldl_feed_xor, BitVec.zero_xor]
  rw [difference first, difference second] at same
  exact shifts_injective top _ ((BitVec.xor_right_inj _).mp same)

theorem bytes_eq_of_foldl_feed {register : BitVec width} {first second : List UInt8}
    (fits : 8 * first.length ≤ width) (length : second.length = first.length)
    (same : first.foldl (feed polynomial) register = second.foldl (feed polynomial) register) :
    first = second := by
  have begin : ∀ bytes : List UInt8, bytes.foldl (feed polynomial) register =
      bytes.foldl (feed polynomial) (BitVec.ofNat width 0) ^^^
        shifts polynomial (8 * bytes.length) register := by
    intro bytes
    rw [← foldl_feed_xor, BitVec.zero_xor]
  rw [begin first, begin second, length, foldl_feed_zero first fits,
    foldl_feed_zero second (by rwa [length]), length] at same
  exact word_injective fits length (shifts_injective top _ ((BitVec.xor_left_inj _).mp same))

/-- The check sees every change of bytes that fit the register side by side. -/
theorem check_ne_of_burst {before window window' after : List UInt8}
    (fits : 8 * window.length ≤ width) (length : window'.length = window.length)
    (altered : window' ≠ window) :
    check polynomial (before ++ window' ++ after) ≠ check polynomial (before ++ window ++ after) := by
  intro same
  simp only [check, List.foldl_append, BitVec.xor_left_inj] at same
  have registers := foldl_feed_injective top after same
  exact altered (bytes_eq_of_foldl_feed top fits length registers.symm).symm

end TopBit

end FileServer.Checksum
