import FileServer.Relational.Table
import FileServer.Sequence.Overlay
import FileServer.Service.Filenames

/-!
# Records and files

The `file_info` table with the statements of `FileDAO`, and the files of
`StorageManager`.  Each call is one statement or one operation on a file; its
outcome says what fails of it.
-/

namespace FileServer.Service

open FileServer.Relational FileServer.Sequence

inductive FileStatus where
  | kUploading | kCompleted | kDeleted
  deriving DecidableEq

/-- A row of `file_info`; its id is the key. -/
structure FileInfo where
  userId : Int
  filename : Bytes
  filepath : Bytes
  filesize : Int64
  uploadSize : Int64 := 0
  md5 : Bytes
  status : FileStatus := .kUploading
  deriving DecidableEq

namespace FileInfo

def isUploading (info : FileInfo) : Bool := info.status = .kUploading
def isDeleted (info : FileInfo) : Bool := info.status = .kDeleted

end FileInfo

/-- The database compares texts by the collation of its columns. -/
structure World where
  collate : Bytes → Bytes
  fileInfo : Table Int FileInfo
  lastInsertId : Int
  files : Bytes → Option Bytes

/-- The statements and file operations. -/
inductive Call where
  | findById (fileId : Int)
  | findIncompleteByKey (userId : Int) (filename : Bytes) (filesize : Int64) (md5 : Bytes)
  | insert (file : FileInfo)
  | updateUploadSize (fileId : Int) (uploadSize : Int64)
  /-- The `UPDATE` of `ConfirmUploadChunk`. -/
  | extendUpload (fileId userId : Int) (offset finish : Int64)
  | updateStatus (fileId : Int) (status : FileStatus)
  | localtime
  | createUserDir (userId : Int)
  | writeChunk (filepath data : Bytes) (offset : Int64)
  | getFileSize (filepath : Bytes)
  | deleteFile (filepath : Bytes)
  deriving DecidableEq

/-- The number of rows an `UPDATE` changed, when it succeeded. -/
abbrev Affected := Option Nat

abbrev Call.Answer : Call → Type
  | .findById _ => Option FileInfo
  | .findIncompleteByKey .. => Option (Int × FileInfo)
  | .insert _ => Int
  | .updateUploadSize .. | .updateStatus .. | .createUserDir _ | .deleteFile _ => Bool
  | .extendUpload .. => Affected
  | .localtime => Tm
  | .writeChunk .. | .getFileSize _ => Int64

/-- What becomes of a call. -/
structure Outcome where
  /-- The statement or operation succeeds. -/
  succeeds : Bool := true
  /-- One that does not succeed may have taken effect. -/
  applied : Bool := false
  tm : Tm := default
  /-- An existing file is opened. -/
  opens : Bool := true
  /-- A file can be opened for writing only. -/
  creates : Bool := true
  /-- And reopened for reading and writing. -/
  reopens : Bool := true
  seeks : Bool := true
  /-- The number of bytes that reach the disk when a write fails. -/
  written : Option Nat := none
  deriving DecidableEq, Inhabited

namespace World

def insertRow (world : World) (file : FileInfo) : Option (Int × World) :=
  let id := world.lastInsertId + 1
  (world.fileInfo.insert? id file).map fun fileInfo =>
    (id, { world with fileInfo, lastInsertId := id })

def modifyRow (world : World) (fileId : Int) (f : FileInfo → FileInfo) : World :=
  { world with fileInfo := world.fileInfo.modify fileId f }

def setFile (world : World) (filepath : Bytes) (content : Option Bytes) : World :=
  { world with files := fun path => if path = filepath then content else world.files path }

/-- The rows that `ConfirmUploadChunk` extends. -/
def extends? (world : World) (fileId userId : Int) (offset finish : Int64) : Bool :=
  match world.fileInfo.get? fileId with
  | some info => info.userId = userId ∧ info.status = .kUploading ∧ info.uploadSize = offset ∧
      finish ≤ info.filesize
  | none => false

/-- The `WHERE` clause of `FindIncompleteByKey`. -/
def matchesKey (world : World) (userId : Int) (filename : Bytes) (filesize : Int64) (md5 : Bytes)
    (info : FileInfo) : Bool :=
  info.userId = userId ∧ world.collate info.filename = world.collate filename ∧
    info.filesize = filesize ∧ world.collate info.md5 = world.collate md5 ∧
    info.status = .kUploading

/-- `ORDER BY id DESC LIMIT 1`. -/
def incomplete (world : World) (userId : Int) (filename : Bytes) (filesize : Int64)
    (md5 : Bytes) : Option (Int × FileInfo) :=
  (world.fileInfo.rows.filter fun row =>
    world.matchesKey userId filename filesize md5 row.2).maxOn? fun row => row.1

/-- What `WriteChunk` opens: the file if there is one, and otherwise a new one,
which empties a file that could not be opened. -/
def openChunk (outcome : Outcome) (filepath : Bytes) (world : World) : Bool × World :=
  if (world.files filepath).isSome ∧ outcome.opens then (true, world)
  else
    let world := if outcome.creates then world.setFile filepath (some []) else world
    ((world.files filepath).isSome ∧ outcome.reopens, world)

def writeChunk (outcome : Outcome) (filepath data : Bytes) (offset : Int64) (world : World) :
    Int64 × World :=
  let (opened, world) := world.openChunk outcome filepath
  if !opened then (-1, world)
  else if offset < 0 ∨ !outcome.seeks then (-1, world)
  else
    let content := (world.files filepath).getD []
    let fits := offset.toInt + data.length < 2 ^ 63
    match if fits then outcome.written else some (outcome.written.getD 0) with
    | some count =>
        (-1, world.setFile filepath (some (overlay 0 content offset.toInt.toNat (data.take count))))
    | none =>
        (.ofNat data.length,
          world.setFile filepath (some (overlay 0 content offset.toInt.toNat data)))

end World

/-- Perform a statement or an operation. -/
def serve (outcome : Outcome) : (call : Call) → World → call.Answer × World
  | .findById fileId, world =>
      (if outcome.succeeds then world.fileInfo.get? fileId else none, world)
  | .findIncompleteByKey userId filename filesize md5, world =>
      (if outcome.succeeds then world.incomplete userId filename filesize md5 else none, world)
  | .insert file, world =>
      match world.insertRow file with
      | some (id, inserted) =>
          if outcome.succeeds then (id, inserted)
          else (-1, if outcome.applied then inserted else world)
      | none => (-1, world)
  | .updateUploadSize fileId uploadSize, world =>
      (outcome.succeeds, if outcome.succeeds ∨ outcome.applied then
        world.modifyRow fileId fun info => { info with uploadSize } else world)
  | .extendUpload fileId userId offset finish, world =>
      let changes := world.extends? fileId userId offset finish
      (if outcome.succeeds then some (if changes ∧ finish ≠ offset then 1 else 0) else none,
        if changes ∧ (outcome.succeeds ∨ outcome.applied) then
          world.modifyRow fileId fun info => { info with uploadSize := finish } else world)
  | .updateStatus fileId status, world =>
      (outcome.succeeds, if outcome.succeeds ∨ outcome.applied then
        world.modifyRow fileId fun info => { info with status } else world)
  | .localtime, world => (outcome.tm, world)
  | .createUserDir _, world => (outcome.succeeds, world)
  | .writeChunk filepath data offset, world => world.writeChunk outcome filepath data offset
  | .getFileSize filepath, world =>
      (match world.files filepath with
        | some content => if outcome.succeeds then .ofNat content.length else -1
        | none => -1, world)
  | .deleteFile filepath, world =>
      if (world.files filepath).isSome ∧ outcome.succeeds then
        (true, world.setFile filepath none)
      else (false, world)

end FileServer.Service
