import FileServer.Routing.Gateway
import FileServer.Rpc.Server
import FileServer.Service.Reading
import FileServer.Service.Sequential

/-!
# The service processes

The RPC methods of FileService, StorageService and UserService, and how
`CallRpc` reaches them.
-/

namespace FileServer.Routing

open FileServer.Json FileServer.Transition
open FileServer.Protocol (Message Response)
open FileServer.Service (World Outcome Call Failure FileInfo execute consult)

namespace Services

/-- A method that reads and changes files and records; it may throw. -/
abbrev Method (α : Type) := ExceptT Exception (Program Call Call.Answer Failure) α

def ask (call : Call) : Method call.Answer := ExceptT.lift (Service.ask call)

/-- `args.at(key)` as an `int64_t`. -/
def int64At (args : Value) (key : String) : Reads Int := do
  let value ← args.atKey key
  value.getInt64

section FileService

variable (args : Value)

def uploadStart : Method Value := do
  let userId ← args.value "user_id" 0 Value.getLongLong
  let filename ← args.value "filename" [] Value.getString
  let filesize ← args.value "filesize" 0 Value.getLongLong
  let md5 ← args.value "md5" [] Value.getString
  let result ← ExceptT.lift (Service.FileService.uploadStart userId filename (.ofInt filesize) md5)
  return .object [("code", .number (if 0 < result.fileId then 0 else -1)),
    ("file_id", .number result.fileId), ("is_resume", .boolean result.isResume),
    ("offset", .number result.offset.toInt)]

def validateChunk : Method (Option FileInfo) := do
  let fileId ← int64At args "file_id"
  let found ← ask (.findById fileId)
  let offset ← int64At args "offset"
  let size ← int64At args "size"
  match found with
  | none => return none
  | some info =>
      let userId ← int64At args "user_id"
      let valid ← ExceptT.lift (liftM (Service.inRange userId (.ofInt offset) (.ofInt size) info))
      return if valid then some info else none

def refusal (msg : String) : Value := .object [("code", .number (-1)), ("msg", .string (text msg))]

def prepareUploadChunk : Method Value := do
  match ← validateChunk args with
  | none => return refusal "文件、权限或上传偏移无效"
  | some info => return .object [("code", .number 0), ("filepath", .string info.filepath),
      ("upload_size", .number info.uploadSize.toInt)]

def confirmUploadChunk : Method Value := do
  match ← validateChunk args with
  | none => return refusal "上传进度更新失败"
  | some _ =>
      let fileId ← int64At args "file_id"
      let userId ← int64At args "user_id"
      let offset ← int64At args "offset"
      let size ← int64At args "size"
      let stored ← ExceptT.lift (Service.confirmChunk fileId userId (.ofInt offset) (.ofInt size))
      if !stored then return refusal "上传进度更新失败"
      match ← ask (.findById fileId) with
      | none => return refusal "上传进度查询失败"
      | some confirmed => return .object [("code", .number 0),
          ("upload_size", .number confirmed.uploadSize.toInt)]

def coded (ok : Bool) : Value := .object [("code", .number (if ok then 0 else -1))]

def uploadFinalize : Method Value := do
  let fileId ← int64At args "file_id"
  match ← ask (.findById fileId) with
  | none => return coded false
  | some info =>
      let userId ← int64At args "user_id"
      if info.userId ≠ userId ∨ !info.isUploading ∨ info.uploadSize ≠ info.filesize then
        return coded false
      let fileSize ← ask (.getFileSize info.filepath)
      if fileSize < 0 ∨ fileSize ≠ info.filesize then return coded false
      let ok ← ask (.updateStatus fileId .kCompleted)
      return coded ok

/-- `args["file_id"]` as a parameter. -/
def int64Field (key : String) : Reads Int := do
  let value ← args.indexConst key
  value.getInt64

def getFileInfo : Method Value := do
  let fileId ← int64Field args "file_id"
  match ← ask (.findById fileId) with
  | none => return refusal "文件不存在"
  | some info => return .object [("code", .number 0), ("filename", .string info.filename),
      ("filesize", .number info.filesize.toInt), ("md5", .string info.md5),
      ("status", .number info.status.number)]

def delete : Method Value := do
  let fileId ← int64Field args "file_id"
  let userId ← int64Field args "user_id"
  let ok ← ExceptT.lift (Service.FileService.delete fileId userId)
  return coded ok

def queryFiles (outcome : Outcome) (world : World) : Reads Value := do
  let userId ← int64Field args "user_id"
  let files ← consult world [outcome] (Service.FileService.queryFiles userId)
  return .object [("code", .number 0), ("files", .array (files.map fun file =>
    .object [("filename", .string file.2.filename), ("filesize", .number file.2.filesize.toInt),
      ("id", .number file.1), ("status", .number file.2.status.number)]))]

end FileService

section StorageService

variable (args : Value)

def writeChunk (data : Service.Bytes) : Method Value := do
  let filepath ← args.atKey "filepath"
  let filepath ← filepath.getString
  let userId ← int64At args "user_id"
  let offset ← int64At args "offset"
  if userId ≤ 0 ∨ offset < 0 ∨ data = [] then return refusal "无效的存储写入请求"
  let size ← int64At args "size"
  if size ≠ data.length ∨ !(Service.decimal userId ++ [0x2F]).isPrefixOf filepath ∨
      Service.contains [0x2E, 0x2E] filepath ∨ 0x5C ∈ filepath then
    return refusal "无效的存储写入请求"
  if !(← ask (.createUserDir userId)) then return refusal "无效的存储写入请求"
  let written ← ask (.writeChunk filepath data (.ofInt offset))
  return .object [("code", .number (if written.toInt = data.length then 0 else -1)),
    ("written", .number written.toInt)]

def getFileSize : Method Value := do
  let filepath ← args.atKey "filepath"
  let filepath ← filepath.getString
  let size ← ask (.getFileSize filepath)
  return .object [("code", .number (if 0 ≤ size then 0 else -1)), ("size", .number size.toInt)]

def readChunk (outcome : Outcome) (world : World) : Reads Value := do
  let filepath ← args.indexConst "filepath"
  let filepath ← filepath.getString
  let offset ← int64Field args "offset"
  let size ← args.value "size" 0 Value.getUInt64
  let data ← world.readChunk outcome.opens filepath (.ofInt offset) (.ofNat size.toNat)
  return .object [("code", .number 0), ("data", .string data), ("size", .number data.length)]

def deleteFile : Method Value := do
  let filepath ← args.indexConst "filepath"
  let filepath ← filepath.getString
  let ok ← ask (.deleteFile filepath)
  return coded ok

end StorageService

/-- What `Register` and `Login` respond. -/
def issued (token : Service.Bytes) (msg : String) : Value :=
  if token = [] then refusal msg
  else .object [("code", .number 0), ("token", .string token)]

def entrance (method : Service.Bytes → Service.Bytes → Service.Bytes) (msg : String)
    (args : Value) : Reads Value := do
  let username ← args.value "username" [] Value.getString
  let password ← args.value "password" [] Value.getString
  return issued (method username password) msg

def verifyToken (accounts : Accounts) (args : Value) : Reads Value := do
  let token ← args.value "token" [] Value.getString
  let uid := accounts.verifyToken token
  return .object [("code", .number (if 0 < uid then 0 else -1)), ("user_id", .number uid)]

/-- Execute a method; undefined behaviour ends like an exception of no known
type. -/
def perform (outcomes : List Outcome) (world : World) (method : Method Value) :
    Reads Value × World :=
  match execute outcomes world method.run with
  | (.ok result, world) => (result, world)
  | (.error _, world) => (.error .other, world)

def methods (accounts : Accounts) (outcomes : List Outcome) (call : RpcCall) (world : World) :
    Option (Reads Value × World) :=
  match call.service, call.method with
  | .userService, "Register" =>
      some (entrance accounts.register "注册失败" call.args, world)
  | .userService, "Login" => some (entrance accounts.login "登录失败" call.args, world)
  | .userService, "VerifyToken" => some (verifyToken accounts call.args, world)
  | .fileService, "UploadStart" => some (perform outcomes world (uploadStart call.args))
  | .fileService, "PrepareUploadChunk" =>
      some (perform outcomes world (prepareUploadChunk call.args))
  | .fileService, "ConfirmUploadChunk" =>
      some (perform outcomes world (confirmUploadChunk call.args))
  | .fileService, "UploadFinalize" => some (perform outcomes world (uploadFinalize call.args))
  | .fileService, "GetFileInfo" => some (perform outcomes world (getFileInfo call.args))
  | .fileService, "QueryFiles" =>
      some (queryFiles call.args (outcomes.headD default) world, world)
  | .fileService, "Delete" => some (perform outcomes world (delete call.args))
  | .storageService, "WriteChunk" =>
      some (perform outcomes world (writeChunk call.args call.binary))
  | .storageService, "GetFileSize" => some (perform outcomes world (getFileSize call.args))
  | .storageService, "ReadChunk" =>
      some (readChunk call.args (outcomes.headD default) world, world)
  | .storageService, "DeleteFile" => some (perform outcomes world (deleteFile call.args))
  | _, _ => none

end Services

/-- What becomes of an RPC. -/
inductive Delivery where
  | unreachable (msg : Service.Bytes)
  /-- The request does not arrive. -/
  | lost
  /-- The response does not arrive in time. -/
  | late (outcomes : List Outcome)
  | answered (outcomes : List Outcome)
  deriving DecidableEq

instance : Inhabited Delivery := ⟨.answered []⟩

namespace Services

variable (library : Library) (accounts : Accounts)

/-- The JSON of a request; `Call` serialises it. -/
def requestJson (call : RpcCall) : Reads Value :=
  let method := ("method", .string (text call.method))
  match call.args with
  | .object fields =>
      let j : Value := .object (method :: fields.filter (·.1 ≠ "method"))
      (library.dump j).map fun _ => j
  | .null => (library.dump (.object [method])).map fun _ => .object [method]
  | _ => .error (.json 305)

def timeout : Value := .object [("code", .number (-3)), ("msg", .string (text "RPC超时"))]

def serve (outcomes : List Outcome) (call : RpcCall) (world : World) : Reads Value × World :=
  match methods accounts outcomes call world with
  | some (result, world) =>
      (Rpc.caught library (call.service = .storageService ∧ call.method = "WriteChunk") result, world)
  | none => (.ok (Rpc.unknownMethod (text call.method)), world)

/-- `CallRpc`.  A result that cannot be serialised is never sent. -/
def callRpc (delivery : Delivery) (call : RpcCall) (world : World) : Reads Value × World :=
  match delivery with
  | .unreachable msg => (.ok (.object [("code", .number (-1)), ("msg", .string msg)]), world)
  | .lost => ((requestJson library call).map fun _ => timeout, world)
  | .late outcomes =>
      match requestJson library call with
      | .error exception => (.error exception, world)
      | .ok args => (.ok timeout, (serve library accounts outcomes { call with args } world).2)
  | .answered outcomes =>
      match requestJson library call with
      | .error exception => (.error exception, world)
      | .ok args =>
          let (result, world) := serve library accounts outcomes { call with args } world
          match result.bind fun value => (library.dump value).map fun _ => value with
          | .ok value => (.ok value, world)
          | .error _ => (.ok timeout, world)

def step (call : RpcCall) (state : List Delivery × World) :
    Reads Value × List Delivery × World :=
  let (answer, world) := callRpc library accounts (state.1.headD default) call state.2
  (answer, state.1.tail, world)

/-- `Route` of the gateway. -/
def respond (deliveries : List Delivery) (world : World) (request : Message) :
    Reads (Response library) × World :=
  let (response, _, world) :=
    (route library (Gateway.handlers library) request).perform (step library accounts)
      (deliveries, world)
  (response, world)

end Services

end FileServer.Routing
