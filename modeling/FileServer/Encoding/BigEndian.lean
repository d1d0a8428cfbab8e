import Mathlib.Data.List.Induction
import Mathlib.Tactic.Ring

/-!
# Numbers in network byte order

A number is written in a fixed number of bytes, the highest first.
-/

namespace FileServer.Encoding

def unsigned (bytes : List UInt8) : Nat :=
  bytes.foldl (fun number byte => number * 256 + byte.toNat) 0

def bigEndian : Nat → Nat → List UInt8
  | 0, _ => []
  | width + 1, number => bigEndian width (number / 256) ++ [UInt8.ofNat number]

@[simp]
theorem length_bigEndian (width number : Nat) : (bigEndian width number).length = width := by
  induction width generalizing number with
  | zero => rfl
  | succ width inductionHypothesis => simp [bigEndian, inductionHypothesis]

theorem unsigned_append (bytes : List UInt8) (byte : UInt8) :
    unsigned (bytes ++ [byte]) = unsigned bytes * 256 + byte.toNat := by
  simp [unsigned]

theorem unsigned_lt (bytes : List UInt8) : unsigned bytes < 256 ^ bytes.length := by
  induction bytes using List.reverseRecOn with
  | nil => simp [unsigned]
  | append_singleton bytes byte inductionHypothesis =>
      have small := byte.toNat_lt
      rw [unsigned_append, List.length_append, List.length_singleton, Nat.pow_succ]
      omega

theorem unsigned_bigEndian (width number : Nat) :
    unsigned (bigEndian width number) = number % 256 ^ width := by
  induction width generalizing number with
  | zero => simp [bigEndian, unsigned, Nat.mod_one]
  | succ width inductionHypothesis =>
      have low : number % 2 ^ 8 = number % 256 := rfl
      rw [bigEndian, unsigned_append, inductionHypothesis, UInt8.toNat_ofNat', low,
        Nat.pow_succ', Nat.mod_mul]
      omega

theorem unsigned_bigEndian_of_lt {width number : Nat} (fits : number < 256 ^ width) :
    unsigned (bigEndian width number) = number := by
  rw [unsigned_bigEndian, Nat.mod_eq_of_lt fits]

theorem bigEndian_unsigned (bytes : List UInt8) :
    bigEndian bytes.length (unsigned bytes) = bytes := by
  induction bytes using List.reverseRecOn with
  | nil => rfl
  | append_singleton bytes byte inductionHypothesis =>
      have small := byte.toNat_lt
      have quotient : (unsigned bytes * 256 + byte.toNat) / 256 = unsigned bytes := by omega
      have last : UInt8.ofNat (unsigned bytes * 256 + byte.toNat) = byte := by
        apply UInt8.toNat_inj.mp
        rw [UInt8.toNat_ofNat']
        omega
      rw [List.length_append, List.length_singleton, unsigned_append, bigEndian, quotient, last,
        inductionHypothesis]

/-- Numbers with their widths, one after another. -/
def pack (fields : List (Nat × Nat)) : List UInt8 :=
  fields.flatMap fun field => bigEndian field.1 field.2

/-- The numbers of the given widths at the front. -/
def unpack : List Nat → List UInt8 → List Nat
  | [], _ => []
  | width :: widths, bytes => unsigned (bytes.take width) :: unpack widths (bytes.drop width)

theorem unpack_pack (fields : List (Nat × Nat)) (fit : ∀ field ∈ fields, field.2 < 256 ^ field.1)
    (rest : List UInt8) :
    unpack (fields.map Prod.fst) (pack fields ++ rest) = fields.map Prod.snd := by
  induction fields with
  | nil => rfl
  | cons field fields inductionHypothesis =>
      have first : (pack (field :: fields) ++ rest).take field.1 = bigEndian field.1 field.2 := by
        simp [pack, List.append_assoc]
      have others : (pack (field :: fields) ++ rest).drop field.1 = pack fields ++ rest := by
        simp [pack, List.append_assoc]
      simp only [List.map_cons, unpack, first, others,
        unsigned_bigEndian_of_lt (fit field (by simp)),
        inductionHypothesis fun field membership => fit field (by simp [membership])]

theorem pack_unpack (widths : List Nat) (bytes : List UInt8) (enough : widths.sum ≤ bytes.length) :
    pack (widths.zip (unpack widths bytes)) = bytes.take widths.sum := by
  induction widths generalizing bytes with
  | nil => simp [pack, unpack]
  | cons width widths inductionHypothesis =>
      rw [List.sum_cons] at enough
      have first : bigEndian width (unsigned (bytes.take width)) = bytes.take width := by
        have exactly := bigEndian_unsigned (bytes.take width)
        rwa [List.length_take_of_le (by omega)] at exactly
      have others := inductionHypothesis (bytes.drop width) (by
        rw [List.length_drop]
        omega)
      rw [pack] at others
      rw [unpack, List.zip_cons_cons, pack, List.flatMap_cons, first, others, List.sum_cons,
        List.take_add]

end FileServer.Encoding
