import FileServer.Routing.Router
import FileServer.Service.Reading
import FileServer.Service.Sequential

/-!
# The single process

The handlers of `server_main`, over the methods of `UserService` and
`FileService`.
-/

namespace FileServer.Routing

open FileServer.Json FileServer.Protocol FileServer.Transition
open FileServer.Service (FileInfo Outcome World consult execute)

inductive ServiceCall where
  | register (username password : Bytes)
  | login (username password : Bytes)
  | verifyToken (token : Bytes)
  | uploadStart (userId : Int) (filename : Bytes) (filesize : Int64) (md5 : Bytes)
  | uploadData (fileId userId : Int) (data : Bytes) (offset : Int64)
  | uploadFinalize (fileId userId : Int)
  | getFileInfo (fileId : Int)
  | downloadChunk (fileId userId : Int) (offset : Int64) (size : UInt64)
  | queryFiles (userId : Int)
  | delete (fileId userId : Int)

abbrev ServiceCall.Result : ServiceCall → Type
  | .register .. | .login .. | .downloadChunk .. => Bytes
  | .verifyToken _ => Int
  | .uploadStart .. => Service.FileService.UploadStartResult
  | .uploadData .. => Int64
  | .uploadFinalize .. | .delete .. => Bool
  | .getFileInfo _ => Option FileInfo
  | .queryFiles _ => List (Int × FileInfo)

/-- What a method returns or throws. -/
abbrev ServiceCall.Answer (call : ServiceCall) : Type := Reads call.Result

namespace Server

variable (library : Library)

abbrev ServerHandler := Handler ServiceCall ServiceCall.Answer library

def ask (method : ServiceCall) :
    Program ServiceCall ServiceCall.Answer Exception method.Result :=
  .send method id

def getToken (request : Message) : Reads Bytes :=
  (request.getJson library).value "token" [] Value.getString

/-- `j["file_id"]` as a parameter. -/
def getFileId (j : Value) : Reads Int := do
  let fileId ← j.index "file_id"
  fileId.getInt64

def authenticated (request : Message)
    (next : Int → Program ServiceCall ServiceCall.Answer Exception (Response library)) :
    Program ServiceCall ServiceCall.Answer Exception (Response library) := do
  let token ← getToken library request
  let userId ← ask (.verifyToken token)
  if userId ≤ 0 then makeResponse library request (-1) (text "认证失败")
  else next userId

def entrance (method : Bytes → Bytes → Program ServiceCall ServiceCall.Answer Exception Bytes)
    (refusal : String) : ServerHandler library := fun request => do
  let j := request.getJson library
  let username ← j.value "username" [] Value.getString
  let password ← j.value "password" [] Value.getString
  let token ← method username password
  if token = [] then makeResponse library request (-1) (text refusal)
  else makeResponse library request 0 (text "ok") (.object [("token", .string token)])

def register : ServerHandler library :=
  entrance library (fun username password => ask (.register username password))
    "注册失败: 用户名已存在或参数错误"

def login : ServerHandler library :=
  entrance library (fun username password => ask (.login username password))
    "登录失败: 用户名或密码错误"

def uploadStart : ServerHandler library := fun request =>
  authenticated library request fun userId => do
    let j := request.getJson library
    let filename ← j.value "filename" [] Value.getString
    let filesize ← j.value "filesize" 0 Value.getLongLong
    let md5 ← j.value "md5" [] Value.getString
    let result ← ask (.uploadStart userId filename (.ofInt filesize) md5)
    if result.fileId ≤ 0 then makeResponse library request (-1) (text "上传初始化失败")
    else makeResponse library request 0 (text "ok") (.object [
      ("file_id", .number result.fileId), ("is_resume", .boolean result.isResume),
      ("offset", .number result.offset.toInt)])

def uploadData : ServerHandler library := fun request =>
  authenticated library request fun userId => do
    let j := request.getJson library
    let fileId ← getFileId j
    let offset ← j.value "offset" 0 Value.getLongLong
    let written ← ask (.uploadData fileId userId request.binaryData (.ofInt offset))
    if written < 0 then makeResponse library request (-1) (text "数据写入失败")
    else makeResponse library request 0 (text "ok") (.object [("written", .number written.toInt)])

def uploadFinalize : ServerHandler library := fun request =>
  authenticated library request fun userId => do
    let fileId ← getFileId (request.getJson library)
    if ← ask (.uploadFinalize fileId userId) then
      makeResponse library request 0 (text "上传完成")
    else makeResponse library request (-1) (text "上传完成失败")

def download : ServerHandler library := fun request =>
  authenticated library request fun userId => do
    let fileId ← getFileId (request.getJson library)
    match ← ask (.getFileInfo fileId) with
    | none => makeResponse library request (-1) (text "文件不存在")
    | some info =>
        if info.userId ≠ userId then makeResponse library request (-1) (text "文件不存在")
        else makeResponse library request 0 (text "ok") (.object [
          ("filename", .string info.filename), ("filesize", .number info.filesize.toInt),
          ("md5", .string info.md5), ("status", .number info.status.number)])

def downloadChunk : ServerHandler library := fun request =>
  authenticated library request fun userId => do
    let j := request.getJson library
    let fileId ← getFileId j
    let offset ← j.value "offset" 0 Value.getLongLong
    let size ← j.value "size" 0 Value.getUInt64
    let data ← ask (.downloadChunk fileId userId (.ofInt offset) (.ofNat size.toNat))
    if data = [] then makeResponse library request (-1) (text "读取失败或文件末尾")
    else
      makeResponse library request 0 (text "ok") (.object [("size", .number data.length)]) data

def list : ServerHandler library := fun request =>
  authenticated library request fun userId => do
    let files ← ask (.queryFiles userId)
    makeResponse library request 0 (text "ok") (.object [("files", .array (files.map fun file =>
      .object [("filename", .string file.2.filename), ("filesize", .number file.2.filesize.toInt),
        ("id", .number file.1), ("status", .number file.2.status.number),
        ("upload_size", .number file.2.uploadSize.toInt)]))])

def delete : ServerHandler library := fun request =>
  authenticated library request fun userId => do
    let fileId ← getFileId (request.getJson library)
    if ← ask (.delete fileId userId) then makeResponse library request 0 (text "删除成功")
    else makeResponse library request (-1) (text "删除失败")

def handlers : List (String × ServerHandler library) :=
  [("register", register library), ("login", login library),
    ("upload_start", uploadStart library), ("upload_data", uploadData library),
    ("upload_finalize", uploadFinalize library), ("download", download library),
    ("download_chunk", downloadChunk library), ("list", list library),
    ("delete", delete library)]

/-- Undefined behaviour ends like an exception of no known type. -/
def finished {α : Type} (result : Except Service.Failure α × World) : Reads α × World :=
  match result with
  | (.ok value, world) => (.ok value, world)
  | (.error _, world) => (.error .other, world)

def serve (accounts : Accounts) (outcomes : List Outcome) (world : World) :
    (method : ServiceCall) → method.Answer × World
  | .register username password => (.ok (accounts.register username password), world)
  | .login username password => (.ok (accounts.login username password), world)
  | .verifyToken token => (.ok (accounts.verifyToken token), world)
  | .uploadStart userId filename filesize md5 =>
      finished (execute outcomes world (Service.FileService.uploadStart userId filename filesize md5))
  | .uploadData fileId userId data offset =>
      finished (execute outcomes world (Service.FileService.uploadData fileId userId data offset))
  | .uploadFinalize fileId userId =>
      finished (execute outcomes world (Service.FileService.uploadFinalize fileId userId))
  | .getFileInfo fileId => (consult world outcomes (Service.FileService.getFileInfo fileId), world)
  | .downloadChunk fileId userId offset size =>
      (consult world outcomes (Service.FileService.downloadChunk fileId userId offset size), world)
  | .queryFiles userId => (consult world outcomes (Service.FileService.queryFiles userId), world)
  | .delete fileId userId =>
      finished (execute outcomes world (Service.FileService.delete fileId userId))

def step (accounts : Accounts) (method : ServiceCall) (state : List (List Outcome) × World) :
    method.Answer × List (List Outcome) × World :=
  let (answer, world) := serve accounts (state.1.headD []) state.2 method
  (answer, state.1.tail, world)

/-- `Route` of the single process. -/
def respond (accounts : Accounts) (outcomes : List (List Outcome)) (world : World)
    (request : Message) : Reads (Response library) × World :=
  let (response, _, world) :=
    (route library (handlers library) request).perform (step accounts) (outcomes, world)
  (response, world)

end Server

end FileServer.Routing
