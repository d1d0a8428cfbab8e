import FileServer.Routing.Router

/-!
# The gateway process

The handlers of `gateway_main`, over the RPCs that they issue.
-/

namespace FileServer.Routing

open FileServer.Json FileServer.Protocol FileServer.Transition

inductive ServiceName where
  | userService | fileService | storageService
  deriving DecidableEq

/-- An RPC of `CallRpc`. -/
structure RpcCall where
  service : ServiceName
  method : String
  args : Value
  binary : Bytes := []

/-- `CallRpc` returns any JSON, or throws. -/
abbrev RpcCall.Answer (_ : RpcCall) : Type := Reads Value

namespace Gateway

abbrev GatewayProgram (α : Type) := Program RpcCall RpcCall.Answer Exception α

def callRpc (service : ServiceName) (method : String) (args : Value) (binary : Bytes := []) :
    GatewayProgram Value :=
  .send ⟨service, method, args, binary⟩ id

def verifyToken (token : Bytes) : GatewayProgram Int := do
  if token = [] then return -1
  let r ← callRpc .userService "VerifyToken" (.object [("token", .string token)])
  r.value "user_id" 0 Value.getLongLong

variable (library : Library)

abbrev GatewayHandler := Handler RpcCall RpcCall.Answer library

def authenticated (request : Message)
    (next : Value → Int → GatewayProgram (Response library)) :
    GatewayProgram (Response library) := do
  let j := request.getJson library
  let token ← j.value "token" [] Value.getString
  let uid ← verifyToken token
  if uid ≤ 0 then makeResponse library request (-1) (text "认证失败")
  else next j uid

def forward (request : Message) (r : Value) : Reads (Response library) := do
  let code ← r.value "code" (-1) Value.getInt
  let msg ← r.value "msg" [] Value.getString
  makeResponse library request code msg r

/-- Pass the request on to `UserService`. -/
def entrance (method : String) : GatewayHandler library := fun request => do
  let r ← callRpc .userService method (request.getJson library)
  forward library request r

def register : GatewayHandler library := entrance library "Register"

def login : GatewayHandler library := entrance library "Login"

def uploadStart : GatewayHandler library := fun request =>
  authenticated library request fun j uid => do
    let filename ← j.index "filename"
    let filesize ← j.index "filesize"
    let md5 ← j.index "md5"
    let r ← callRpc .fileService "UploadStart" (.object [("filename", filename),
      ("filesize", filesize), ("md5", md5), ("user_id", .number uid)])
    forward library request r

def uploadData : GatewayHandler library := fun request =>
  authenticated library request fun j uid => do
    let offset ← j.value "offset" 0 Value.getLongLong
    let size : Int := request.binaryData.length
    let fileId ← j.atKey "file_id"
    let args : Value := .object [("file_id", fileId), ("offset", .number offset),
      ("size", .number size), ("user_id", .number uid)]
    let prepared ← callRpc .fileService "PrepareUploadChunk" args
    let code ← prepared.value "code" (-1) Value.getInt
    if code ≠ 0 then
      let msg ← prepared.value "msg" (text "上传校验失败") Value.getString
      makeResponse library request code msg
    else
      let uploadSize ← prepared.value "upload_size" 0 Value.getLongLong
      if offset + size ≤ uploadSize then
        let uploadSize ← prepared.atKey "upload_size"
        makeResponse library request 0 (text "ok")
          (.object [("upload_size", uploadSize), ("written", .number size)])
      else
        let filepath ← prepared.atKey "filepath"
        let written ← callRpc .storageService "WriteChunk" (.object [("filepath", filepath),
          ("offset", .number offset), ("size", .number size), ("user_id", .number uid)])
          request.binaryData
        let code ← written.value "code" (-1) Value.getInt
        let count ← if code ≠ 0 then pure (-1) else written.value "written" (-1) Value.getLongLong
        if code ≠ 0 ∨ count ≠ size then
          let msg ← written.value "msg" (text "存储写入失败") Value.getString
          makeResponse library request (-1) msg
        else
          let confirmed ← callRpc .fileService "ConfirmUploadChunk" args
          let code ← confirmed.value "code" (-1) Value.getInt
          if code ≠ 0 then
            let msg ← confirmed.value "msg" (text "进度确认失败") Value.getString
            makeResponse library request code msg
          else
            let uploadSize ← confirmed.atKey "upload_size"
            makeResponse library request 0 (text "ok")
              (.object [("upload_size", uploadSize), ("written", .number size)])

/-- Pass a `file_id` on to a method, with the user or without. -/
def withFile (method : String) (owner : Bool) : GatewayHandler library := fun request =>
  authenticated library request fun j uid => do
    let fileId ← j.index "file_id"
    let r ← callRpc .fileService method (.object (("file_id", fileId) ::
      if owner then [("user_id", .number uid)] else []))
    forward library request r

def uploadFinalize : GatewayHandler library := withFile library "UploadFinalize" true

def download : GatewayHandler library := withFile library "GetFileInfo" false

def delete : GatewayHandler library := withFile library "Delete" true

def downloadChunk : GatewayHandler library := fun request =>
  authenticated library request fun j _ => do
    let filepath ← j.value "filepath" [] Value.getString
    let offset ← j.index "offset"
    let size ← j.index "size"
    let r ← callRpc .storageService "ReadChunk"
      (.object [("filepath", .string filepath), ("offset", offset), ("size", size)])
    let data ← r.value "data" [] Value.getString
    makeResponse library request 0 (text "ok") r data

def list : GatewayHandler library := fun request =>
  authenticated library request fun _ uid => do
    let r ← callRpc .fileService "QueryFiles" (.object [("user_id", .number uid)])
    makeResponse library request 0 (text "ok") r

def handlers : List (String × GatewayHandler library) :=
  [("register", register library), ("login", login library),
    ("upload_start", uploadStart library), ("upload_data", uploadData library),
    ("upload_finalize", uploadFinalize library), ("download", download library),
    ("download_chunk", downloadChunk library), ("list", list library),
    ("delete", delete library)]

end Gateway

end FileServer.Routing
