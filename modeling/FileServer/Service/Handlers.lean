import FileServer.Encoding.Signed
import FileServer.Service.Records
import FileServer.Transition.Interleaving

/-!
# The handlers

The methods of `FileService`, the RPC handlers of the FileService and
StorageService processes, and the `upload_data` handler of the gateway.
-/

namespace FileServer.Service

open FileServer.Encoding FileServer.Transition

inductive Failure where
  /-- Undefined behaviour: a signed expression overflows. -/
  | overflow
  deriving DecidableEq

/-- The fields of a response that a caller reads, with the values it takes for
missing ones. -/
structure Reply where
  code : Int
  fileId : Int := 0
  offset : Int64 := 0
  isResume : Bool := false
  filepath : Bytes := []
  uploadSize : Int64 := 0
  written : Int64 := -1
  deriving DecidableEq

abbrev Handler (α : Type) := Program Call Call.Answer Failure α

def ask (call : Call) : Handler call.Answer := .send call .ok

def add (x y : Int64) : Except Failure Int64 := checkedAdd .overflow x y
def sub (x y : Int64) : Except Failure Int64 := checkedSub .overflow x y

namespace FileService

structure UploadStartResult where
  fileId : Int
  offset : Int64 := 0
  isResume : Bool := false

def uploadStart (userId : Int) (filename : Bytes) (filesize : Int64) (md5 : Bytes) :
    Handler UploadStartResult := do
  if filename = [] ∨ filesize ≤ 0 then return { fileId := -1 }
  let safeName := sanitizeFilename filename
  match ← ask (.findIncompleteByKey userId safeName filesize md5) with
  | some (id, existing) => return { fileId := id, offset := existing.uploadSize, isResume := true }
  | none =>
      let _ ← ask (.createUserDir userId)
      let tm ← ask .localtime
      let fileId ← ask (.insert {
        userId, filename := safeName, filepath := generateFilepath userId safeName tm
        filesize, md5 })
      if fileId ≤ 0 then return { fileId := -2 }
      return { fileId }

def uploadData (fileId userId : Int) (data : Bytes) (offset : Int64) : Handler Int64 := do
  match ← ask (.findById fileId) with
  | none => return -1
  | some info =>
      if info.userId ≠ userId then return -1
      if !info.isUploading then return -1
      let written ← ask (.writeChunk info.filepath data offset)
      if written < 0 then return -1
      let finish ← add offset written
      let _ ← ask (.updateUploadSize fileId (max info.uploadSize finish))
      return written

def uploadFinalize (fileId userId : Int) : Handler Bool := do
  match ← ask (.findById fileId) with
  | none => return false
  | some info =>
      if info.userId ≠ userId then return false
      let diskSize ← ask (.getFileSize info.filepath)
      if diskSize < info.filesize then return false
      let _ ← ask (.updateStatus fileId .kCompleted)
      let _ ← ask (.updateUploadSize fileId info.filesize)
      return true

def delete (fileId userId : Int) : Handler Bool := do
  match ← ask (.findById fileId) with
  | none => return false
  | some info =>
      if info.userId ≠ userId then return false
      let _ ← ask (.updateStatus fileId .kDeleted)
      let _ ← ask (.deleteFile info.filepath)
      return true

end FileService

inductive Request where
  | uploadStart (userId : Int) (filename : Bytes) (filesize : Int64) (md5 : Bytes)
  /-- `FileService::UploadData`. -/
  | uploadData (fileId userId : Int) (data : Bytes) (offset : Int64)
  /-- `FileService::UploadFinalize`. -/
  | uploadFinalize (fileId userId : Int)
  | delete (fileId userId : Int)
  | prepareUploadChunk (fileId userId : Int) (offset size : Int64)
  | confirmUploadChunk (fileId userId : Int) (offset size : Int64)
  /-- The `UploadFinalize` method of the FileService process. -/
  | finalizeUpload (fileId userId : Int)
  | writeChunk (filepath : Bytes) (userId : Int) (offset size : Int64) (data : Bytes)
  deriving DecidableEq

section FileServiceServer

variable (fileId userId : Int) (offset size : Int64)

/-- The expressions of `validate_chunk`, from left to right. -/
def inRange (info : FileInfo) : Except Failure Bool := do
  if info.userId ≠ userId then return false
  if !info.isUploading then return false
  if offset < 0 then return false
  if size ≤ 0 then return false
  if info.filesize < offset then return false
  if (← sub info.filesize offset) < size then return false
  if info.uploadSize < offset then return false
  if offset < info.uploadSize then
    if info.uploadSize < (← add offset size) then return false
  return true

def validateChunk : Handler (Option FileInfo) := do
  match ← ask (.findById fileId) with
  | none => return none
  | some info => return if ← inRange userId offset size info then some info else none

def prepareUploadChunk : Handler Reply := do
  match ← validateChunk fileId userId offset size with
  | none => return { code := -1 }
  | some info => return { code := 0, filepath := info.filepath, uploadSize := info.uploadSize }

/-- `FileDAO::ConfirmUploadChunk`. -/
def confirmChunk : Handler Bool := do
  let finish ← add offset size
  match ← ask (.extendUpload fileId userId offset finish) with
  | none => return false
  | some affected =>
      if affected = 1 then return true
      match ← ask (.findById fileId) with
      | none => return false
      | some info =>
          return info.userId = userId ∧ info.isUploading ∧ finish ≤ info.uploadSize

def confirmUploadChunk : Handler Reply := do
  match ← validateChunk fileId userId offset size with
  | none => return { code := -1 }
  | some _ =>
      if !(← confirmChunk fileId userId offset size) then return { code := -1 }
      match ← ask (.findById fileId) with
      | none => return { code := -1 }
      | some confirmed => return { code := 0, uploadSize := confirmed.uploadSize }

def finalizeUpload : Handler Reply := do
  match ← ask (.findById fileId) with
  | none => return { code := -1 }
  | some info =>
      if info.userId ≠ userId then return { code := -1 }
      if !info.isUploading then return { code := -1 }
      if info.uploadSize ≠ info.filesize then return { code := -1 }
      let fileSize ← ask (.getFileSize info.filepath)
      if fileSize < 0 ∨ fileSize ≠ info.filesize then return { code := -1 }
      let ok ← ask (.updateStatus fileId .kCompleted)
      return { code := if ok then 0 else -1 }

end FileServiceServer

def contains (part : Bytes) : Bytes → Bool
  | [] => part.isEmpty
  | c :: rest => part.isPrefixOf (c :: rest) || contains part rest

def writeChunk (filepath : Bytes) (userId : Int) (offset size : Int64) (data : Bytes) :
    Handler Reply := do
  if userId ≤ 0 ∨ offset < 0 ∨ data = [] ∨ size ≠ .ofNat data.length ∨
      !(decimal userId ++ [0x2F]).isPrefixOf filepath ∨ contains [0x2E, 0x2E] filepath ∨
      0x5C ∈ filepath then
    return { code := -1 }
  if !(← ask (.createUserDir userId)) then return { code := -1 }
  let written ← ask (.writeChunk filepath data offset)
  return { code := if written = .ofNat data.length then 0 else -1, written }

def handler : Request → Handler Reply
  | .uploadStart userId filename filesize md5 => do
      let result ← FileService.uploadStart userId filename filesize md5
      return {
        code := if 0 < result.fileId then 0 else -1, fileId := result.fileId
        offset := result.offset, isResume := result.isResume }
  | .uploadData fileId userId data offset => do
      let written ← FileService.uploadData fileId userId data offset
      return { code := if written < 0 then -1 else 0, written }
  | .uploadFinalize fileId userId => do
      return { code := if ← FileService.uploadFinalize fileId userId then 0 else -1 }
  | .delete fileId userId => do
      return { code := if ← FileService.delete fileId userId then 0 else -1 }
  | .prepareUploadChunk fileId userId offset size => prepareUploadChunk fileId userId offset size
  | .confirmUploadChunk fileId userId offset size => confirmUploadChunk fileId userId offset size
  | .finalizeUpload fileId userId => finalizeUpload fileId userId
  | .writeChunk filepath userId offset size data => writeChunk filepath userId offset size data

/-- An `upload_data` message, and the user `VerifyToken` finds for its token. -/
structure UploadData where
  fileId : Int
  userId : Int
  offset : Int64
  data : Bytes
  deriving DecidableEq

def callRpc (request : Request) : Program Request (fun _ => Reply) Failure Reply :=
  .send request .ok

def uploadData (message : UploadData) : Program Request (fun _ => Reply) Failure Reply := do
  if message.userId ≤ 0 then return { code := -1 }
  let size : Int64 := .ofNat message.data.length
  let prepared ← callRpc
    (.prepareUploadChunk message.fileId message.userId message.offset size)
  if prepared.code ≠ 0 then return { code := prepared.code }
  if (← add message.offset size) ≤ prepared.uploadSize then
    return { code := 0, written := size, uploadSize := prepared.uploadSize }
  let written ← callRpc
    (.writeChunk prepared.filepath message.userId message.offset size message.data)
  if written.code ≠ 0 ∨ written.written ≠ size then return { code := -1 }
  let confirmed ← callRpc
    (.confirmUploadChunk message.fileId message.userId message.offset size)
  if confirmed.code ≠ 0 then return { code := confirmed.code }
  return { code := 0, written := size, uploadSize := confirmed.uploadSize }

end FileServer.Service
