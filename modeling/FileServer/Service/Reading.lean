import FileServer.Protocol.Json
import FileServer.Service.System

/-!
# Reading files and records

The methods that change nothing: `ReadChunk` of `StorageManager`, and what
`FileService` answers from it and from the table.
-/

namespace FileServer.Service

open FileServer.Encoding FileServer.Json FileServer.Relational FileServer.Transition

def FileStatus.number : FileStatus → Int
  | .kUploading => 0
  | .kCompleted => 1
  | .kDeleted => 2

/-- `ReadChunk`; a buffer of an impossible length cannot be made. -/
def World.readChunk (opens : Bool) (filepath : Bytes) (offset : Int64) (size : UInt64)
    (world : World) : Reads Bytes :=
  match if opens ∧ filepath ≠ [] then world.files filepath else none with
  | none => .ok []
  | some content =>
      let remaining := .ofNat content.length - offset
      if offset < 0 ∨ remaining ≤ 0 then .ok []
      else
        let size := if remaining < size.toInt64 then remaining.toUInt64 else size
        if size.toInt64 < 0 then .error .std
        else .ok ((content.drop offset.toInt.toNat).take size.toNat)

/-- The rows of a user that are not deleted, the latest first. -/
def World.byUser (world : World) (userId : Int) : List (Int × FileInfo) :=
  (world.fileInfo.rows.filter fun row => row.2.userId = userId ∧ ¬row.2.isDeleted).mergeSort
    fun row other => other.1 ≤ row.1

/-- What is read in one statement or from one file. -/
inductive Query where
  | findById (fileId : Int)
  | findByUserId (userId : Int)
  | readChunk (filepath : Bytes) (offset : Int64) (size : UInt64)

abbrev Query.Answer : Query → Type
  | .findById _ => Option FileInfo
  | .findByUserId _ => List (Int × FileInfo)
  | .readChunk .. => Reads Bytes

def answer (outcome : Outcome) (world : World) : (query : Query) → query.Answer
  | .findById fileId => if outcome.succeeds then world.fileInfo.get? fileId else none
  | .findByUserId userId => if outcome.succeeds then world.byUser userId else []
  | .readChunk filepath offset size => world.readChunk outcome.opens filepath offset size

abbrev Reader (α : Type) := Program Query Query.Answer Exception α

def consult {α : Type} (world : World) : List Outcome → Reader α → Reads α
  | _, .done result => result
  | outcomes, .call query next =>
      consult world outcomes.tail (next (answer (outcomes.headD default) world query))

namespace FileService

def getFileInfo (fileId : Int) : Reader (Option FileInfo) := .send (.findById fileId) .ok

def queryFiles (userId : Int) : Reader (List (Int × FileInfo)) := .send (.findByUserId userId) .ok

def downloadChunk (fileId userId : Int) (offset : Int64) (size : UInt64) : Reader Bytes := do
  match ← getFileInfo fileId with
  | none => return []
  | some info =>
      if info.userId ≠ userId ∨ info.isDeleted then return []
      .send (.readChunk info.filepath offset size) id

end FileService

theorem toInt_toInt64 {size : UInt64} (fits : size.toNat < 2 ^ 63) :
    size.toInt64.toInt = size.toNat := by
  show size.toBitVec.toInt = size.toBitVec.toNat
  exact BitVec.toInt_eq_toNat_of_lt (by
    show 2 * size.toNat < 2 ^ 64
    omega)

theorem toNat_toUInt64 {size : Int64} (nonneg : 0 ≤ size.toInt) :
    (size.toUInt64.toNat : Int) = size.toInt := by
  have small : size.toBitVec.toInt = size.toBitVec.toNat :=
    BitVec.toInt_eq_toNat_of_lt (by
      have high := size.toInt_lt
      have signed : size.toInt = size.toBitVec.toInt := rfl
      rw [signed, BitVec.toInt_eq_toNat_cond] at nonneg high
      split at nonneg
      next below => exact below
      next => omega)
  exact small.symm

theorem min_toInt (x y : Int64) : (min x y).toInt = min x.toInt y.toInt := by
  show (if x ≤ y then x else y).toInt = _
  split
  next ordered => exact (min_eq_left (Int64.le_iff_toInt_le.mp ordered)).symm
  next larger =>
    rw [Int64.le_iff_toInt_le] at larger
    exact (min_eq_right (by omega)).symm

theorem readChunk_ok {world : World} {filepath content : Bytes} {offset : Int64} {size : UInt64}
    (named : filepath ≠ []) (stored : world.files filepath = some content)
    (bounded : content.length < 2 ^ 63) (inFile : 0 ≤ offset.toInt)
    (below : offset.toInt < content.length) (fits : size.toNat < 2 ^ 63) :
    world.readChunk true filepath offset size =
      .ok ((content.drop offset.toInt.toNat).take size.toNat) := by
  have length : (Int64.ofNat content.length).toInt = content.length :=
    Int64.toInt_ofNat_of_lt bounded
  have remaining : (Int64.ofNat content.length - offset).toInt = content.length - offset.toInt := by
    rw [toInt_sub (by omega) (by omega), length]
  have inside : ¬(offset < 0 ∨ Int64.ofNat content.length - offset ≤ 0) := by
    rw [Int64.lt_iff_toInt_lt, Int64.le_iff_toInt_le, remaining, Int64.toInt_zero]
    omega
  have asked := toInt_toInt64 fits
  simp only [World.readChunk, named, ne_eq, not_false_eq_true, and_self, if_true, stored,
    if_neg inside]
  split
  next past =>
    rw [Int64.lt_iff_toInt_lt, remaining, asked] at past
    have whole := @toNat_toUInt64 (.ofNat content.length - offset) (by omega)
    rw [if_neg (by
      rw [Int64.toInt64_toUInt64, Int64.lt_iff_toInt_lt, remaining, Int64.toInt_zero]
      omega)]
    have dropped : (content.drop offset.toInt.toNat).length = content.length - offset.toInt.toNat :=
      List.length_drop
    rw [List.take_of_length_le (by omega), List.take_of_length_le (by omega)]
  next =>
    rw [if_neg (by
      rw [Int64.lt_iff_toInt_lt, asked, Int64.toInt_zero]
      omega)]

theorem downloadChunk_eq {world : World} {fileId userId : Int} {info : FileInfo} {offset : Int64}
    {size : UInt64} (found : world.fileInfo.get? fileId = some info)
    (owned : info.userId = userId) (kept : info.status ≠ .kDeleted) :
    consult world [] (FileService.downloadChunk fileId userId offset size) =
      world.readChunk true info.filepath offset size := by
  show consult world _ (match world.fileInfo.get? fileId with
    | none => _
    | some info => _) = _
  rw [found]
  have here : ¬(info.userId ≠ userId ∨ info.isDeleted = true) := by
    simp [owned, FileInfo.isDeleted, kept]
  simp only [if_neg here]
  rfl

end FileServer.Service
