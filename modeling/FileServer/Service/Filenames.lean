import Mathlib.Tactic.Common

/-!
# File names and paths

`SanitizeFilename` and `GenerateFilepath` of `FileService`.  A name is a string
of bytes; `char` is signed, so that a byte from `0x80` on compares less than
`0x20`.
-/

namespace FileServer.Service

abbrev Bytes := List UInt8

/-- The fields of `struct tm` that a path contains. -/
structure Tm where
  tmYear : Nat
  tmMon : Nat
  tmMday : Nat
  tmHour : Nat
  tmMin : Nat
  tmSec : Nat
  deriving DecidableEq, Inhabited

def ascii (text : List Char) : Bytes := text.map fun c => .ofNat c.toNat

/-- What follows the last separator. -/
def basename (filename : Bytes) : Bytes :=
  (filename.reverse.takeWhile fun c => c ≠ 0x2F ∧ c ≠ 0x5C).reverse

def dropDots : Bytes → Bytes
  | [] => []
  | [c] => [c]
  | c :: next :: rest =>
      if c = 0x2E ∧ next ≠ 0x2E then dropDots (next :: rest) else c :: next :: rest

/-- What `remove_if` removes: control characters, also those that are negative
as a `char`, and `/ \ : * ? " < > |`. -/
def dangerous (c : UInt8) : Bool :=
  c < 0x20 ∨ 0x80 ≤ c ∨ c ∈ [0x2F, 0x5C, 0x3A, 0x2A, 0x3F, 0x22, 0x3C, 0x3E, 0x7C]

/-- The last dot and what follows it. -/
def extension (filename : Bytes) : Option Bytes :=
  if 0x2E ∈ filename then
    some (0x2E :: (filename.reverse.takeWhile fun c => c ≠ 0x2E).reverse)
  else none

def truncate (filename : Bytes) : Bytes :=
  if 200 < filename.length then
    match extension filename with
    | some suffix =>
        if suffix.length ≤ 20 then filename.take (200 - suffix.length) ++ suffix
        else filename.take 200
    | none => filename.take 200
  else filename

def sanitizeFilename (filename : Bytes) : Bytes :=
  let result := (dropDots (basename filename)).filter fun c => !dangerous c
  truncate (if result = [] then ascii ['u', 'n', 'n', 'a', 'm', 'e', 'd'] else result)

def decimal (n : Int) : Bytes :=
  ascii ((if n < 0 then ['-'] else []) ++ Nat.toDigits 10 n.natAbs)

/-- `setw` with `setfill('0')`. -/
def padded (width n : Nat) : Bytes :=
  let digits := Nat.toDigits 10 n
  ascii (List.replicate (width - digits.length) '0' ++ digits)

/-- `{user_id}/{YYYYMMDD}_{HHmmss}_{filename}`. -/
def generateFilepath (userId : Int) (filename : Bytes) (tm : Tm) : Bytes :=
  decimal userId ++ [0x2F] ++ padded 4 (tm.tmYear + 1900) ++ padded 2 (tm.tmMon + 1) ++
    padded 2 tm.tmMday ++ [0x5F] ++ padded 2 tm.tmHour ++ padded 2 tm.tmMin ++
    padded 2 tm.tmSec ++ [0x5F] ++ filename

end FileServer.Service
