import FileServer.Protocol.Fields
import FileServer.Routing.Server
import FileServer.Routing.Services

/-!
# When the handlers respond

For each handler of both servers, the fields and the answers of services that it
needs to make a response.
-/

namespace FileServer.Routing

open FileServer.Json FileServer.Protocol FileServer.Transition

section Programs

variable {library : Library} {Call : Type} {Answer : Call → Type} {α : Type}

def Responds (result : Reads α) : Prop := Returns result fun _ => True

def Replying (request : Message) (program : Program Call Answer Exception (Response library)) :
    Prop :=
  ∀ answers response, program.result answers = .ok response →
    response.requestId = request.header.requestId

theorem Replying.bind {request : Message} {first : Program Call Answer Exception α}
    {next : α → Program Call Answer Exception (Response library)}
    (replying : ∀ value, Replying request (next value)) : Replying request (first >>= next) := by
  intro answers response returned
  have ended : Returns ((first >>= next).result answers) (· = response) := ⟨response, returned, rfl⟩
  obtain ⟨value, _, last, continued, rfl⟩ := Program.returns_result_bind.mp ended
  exact replying value answers last continued

theorem replying_setJson {request : Message} {json : Value} {binary : Bytes} :
    Replying request (liftM (setJson library request json binary) :
      Program Call Answer Exception (Response library)) :=
  fun _ _ made => (setJson_ok made).1

theorem replying_makeResponse {request : Message} {code : Int} {msg binary : Bytes} {data : Value} :
    Replying request (liftM (makeResponse library request code msg data binary) :
      Program Call Answer Exception (Response library)) :=
  replying_setJson

theorem responseJson_isText {code : Int} {msg : Bytes} {data : Value} :
    (responseJson code msg data).isText = true ↔ isUtf8 msg = true ∧ data.isText = true := by
  unfold responseJson
  split
  next empty =>
    have texts : data.isText = true := by
      cases data with
      | null => rfl
      | array elements => cases elements with | nil => rfl | cons => cases empty
      | object fields => cases fields with | nil => rfl | cons => cases empty
      | boolean | number | float | string | discarded => cases empty
    simp [Value.isText, fieldsText, texts]
  · simp [Value.isText, fieldsText, and_comm]

theorem responds_makeResponse (documented : library.Documented) {request : Message} {code : Int}
    {msg binary : Bytes} {data : Value} :
    Responds (makeResponse library request code msg data binary) ↔
      isUtf8 msg = true ∧ data.isText = true := by
  rw [← responseJson_isText]
  exact returns_setJson documented

end Programs

namespace Server

section Conditions

variable (answers : (call : ServiceCall) → call.Answer) (j : Value)

/-- The token is a text, and its user satisfies a condition when there is one. -/
def Authenticates (next : Int → Prop) : Prop :=
  j.Optional "token" .text ∧ Returns (answers (.verifyToken (j.textAt "token"))) fun userId =>
    0 < userId → next userId

/-- What gives out a token gives out a text. -/
def Enters (method : Bytes → Bytes → Reads Bytes) : Prop :=
  j.Optional "username" .text ∧ j.Optional "password" .text ∧
    Returns (method (j.textAt "username") (j.textAt "password")) fun token => isUtf8 token = true

def StartsUpload : Prop :=
  Authenticates answers j fun userId =>
    j.Optional "filename" .text ∧ j.Optional "filesize" .integer ∧ j.Optional "md5" .text ∧
      Responds (answers (.uploadStart userId (j.textAt "filename")
        (.ofInt (j.longLongAt "filesize")) (j.textAt "md5")))

def SendsData (data : Bytes) : Prop :=
  Authenticates answers j fun userId =>
    j.Required "file_id" .count ∧ j.Optional "offset" .integer ∧
      Responds (answers (.uploadData (j.int64At "file_id") userId data
        (.ofInt (j.longLongAt "offset"))))

def FinalizesUpload : Prop :=
  Authenticates answers j fun userId =>
    j.Required "file_id" .count ∧ Responds (answers (.uploadFinalize (j.int64At "file_id") userId))

/-- The texts of a record of the user are UTF-8. -/
def FindsFile : Prop :=
  Authenticates answers j fun userId =>
    j.Required "file_id" .count ∧ Returns (answers (.getFileInfo (j.int64At "file_id"))) fun found =>
      ∀ info, found = some info → info.userId = userId →
        isUtf8 info.filename = true ∧ isUtf8 info.md5 = true

def ReadsChunk : Prop :=
  Authenticates answers j fun userId =>
    j.Required "file_id" .count ∧ j.Optional "offset" .integer ∧ j.Optional "size" .count ∧
      Responds (answers (.downloadChunk (j.int64At "file_id") userId (.ofInt (j.longLongAt "offset"))
        (.ofNat (j.uint64At "size").toNat)))

def ListsFiles : Prop :=
  Authenticates answers j fun userId =>
    Returns (answers (.queryFiles userId)) fun files =>
      ∀ file ∈ files, isUtf8 file.2.filename = true

def DeletesFile : Prop :=
  Authenticates answers j fun userId =>
    j.Required "file_id" .count ∧ Responds (answers (.delete (j.int64At "file_id") userId))

/-- When the handler of a command responds. -/
def conditions (data : Bytes) : List (String × Prop) := [
  ("register", Enters j fun username password => answers (.register username password)),
  ("login", Enters j fun username password => answers (.login username password)),
  ("upload_start", StartsUpload answers j), ("upload_data", SendsData answers j data),
  ("upload_finalize", FinalizesUpload answers j), ("download", FindsFile answers j),
  ("download_chunk", ReadsChunk answers j), ("list", ListsFiles answers j),
  ("delete", DeletesFile answers j)]

end Conditions

section Handlers

variable {library : Library} (documented : library.Documented)
  {answers : (call : ServiceCall) → call.Answer} {request : Message}
include documented

theorem responds_authenticated
    {next : Int → Program ServiceCall ServiceCall.Answer Exception (Response library)} :
    Responds ((authenticated library request next).result answers) ↔
      Authenticates answers (request.getJson library) fun userId =>
        Responds ((next userId).result answers) := by
  have refused : Responds (makeResponse library request (-1) (text "认证失败")) :=
    (responds_makeResponse documented).mpr ⟨isUtf8_text _, rfl⟩
  unfold authenticated Authenticates Responds
  simp only [Program.returns_result_bind, Program.result_lift, getToken,
    returns_value readsKind_getString, ask, Program.result_send, id]
  refine and_congr_right fun _ => Returns.congr fun userId _ => ?_
  split
  next nobody => exact iff_of_true refused fun somebody => absurd nobody (Int.not_le.mpr somebody)
  next somebody => exact ⟨fun responds _ => responds, fun responds => responds (Int.not_le.mp somebody)⟩

theorem responds_message {code : Int} {msg : String} :
    Responds (makeResponse library request code (text msg)) :=
  (responds_makeResponse documented).mpr ⟨isUtf8_text msg, rfl⟩

theorem responds_data {code : Int} {msg : String} {data : Value} {binary : Bytes}
    (texts : data.isText = true) :
    Responds (makeResponse library request code (text msg) data binary) :=
  (responds_makeResponse documented).mpr ⟨isUtf8_text msg, texts⟩

theorem responds_entrance {refusal : String} {method : Bytes → Bytes → Reads Bytes}
    {called : Bytes → Bytes → Program ServiceCall ServiceCall.Answer Exception Bytes}
    (calls : ∀ username password, (called username password).result answers =
      method username password) :
    Responds ((entrance library called refusal request).result answers) ↔
      Enters (request.getJson library) method := by
  unfold entrance Enters Responds
  simp only [Program.returns_result_bind, Program.result_lift, returns_value readsKind_getString,
    calls]
  refine and_congr_right fun _ => and_congr_right fun _ => Returns.congr fun token _ => ?_
  split
  next none =>
    rw [none]
    exact iff_of_true (responds_message documented) rfl
  next =>
    refine (responds_makeResponse documented).trans ?_
    simp [Value.isText, fieldsText]

theorem responds_uploadStart :
    Responds ((uploadStart library request).result answers) ↔
      StartsUpload answers (request.getJson library) := by
  unfold uploadStart StartsUpload
  rw [responds_authenticated documented]
  unfold Authenticates Responds
  simp only [Program.returns_result_bind, Program.result_lift, returns_value readsKind_getString,
    returns_value readsKind_getLongLong, ask, Program.result_send, id]
  refine and_congr_right fun _ => Returns.congr fun userId _ => forall_congr' fun _ => ?_
  refine and_congr_right fun _ => and_congr_right fun _ => and_congr_right fun _ => ?_
  refine Returns.congr fun result _ => iff_true_intro ?_
  split
  · exact responds_message documented
  · exact responds_data documented rfl

theorem responds_uploadData :
    Responds ((uploadData library request).result answers) ↔
      SendsData answers (request.getJson library) request.binaryData := by
  unfold uploadData SendsData
  rw [responds_authenticated documented]
  unfold Authenticates Responds
  simp only [Program.returns_result_bind, Program.result_lift, getFileId, returns_index_int64,
    returns_value readsKind_getLongLong, ask, Program.result_send, id]
  refine and_congr_right fun _ => Returns.congr fun userId _ => forall_congr' fun _ => ?_
  refine and_congr_right fun _ => and_congr_right fun _ => ?_
  refine Returns.congr fun written _ => iff_true_intro ?_
  split
  · exact responds_message documented
  · exact responds_data documented rfl

theorem responds_uploadFinalize :
    Responds ((uploadFinalize library request).result answers) ↔
      FinalizesUpload answers (request.getJson library) := by
  unfold uploadFinalize FinalizesUpload
  rw [responds_authenticated documented]
  unfold Authenticates Responds
  simp only [Program.returns_result_bind, Program.result_lift, getFileId, returns_index_int64,
    ask, Program.result_send, id]
  refine and_congr_right fun _ => Returns.congr fun userId _ => forall_congr' fun _ => ?_
  refine and_congr_right fun _ => Returns.congr fun completed _ => iff_true_intro ?_
  split <;> exact responds_message documented

theorem responds_delete :
    Responds ((delete library request).result answers) ↔
      DeletesFile answers (request.getJson library) := by
  unfold delete DeletesFile
  rw [responds_authenticated documented]
  unfold Authenticates Responds
  simp only [Program.returns_result_bind, Program.result_lift, getFileId, returns_index_int64,
    ask, Program.result_send, id]
  refine and_congr_right fun _ => Returns.congr fun userId _ => forall_congr' fun _ => ?_
  refine and_congr_right fun _ => Returns.congr fun deleted _ => iff_true_intro ?_
  split <;> exact responds_message documented

theorem responds_download :
    Responds ((download library request).result answers) ↔
      FindsFile answers (request.getJson library) := by
  unfold download FindsFile
  rw [responds_authenticated documented]
  unfold Authenticates Responds
  simp only [Program.returns_result_bind, Program.result_lift, getFileId, returns_index_int64,
    ask, Program.result_send, id]
  refine and_congr_right fun _ => Returns.congr fun userId _ => forall_congr' fun _ => ?_
  refine and_congr_right fun _ => Returns.congr fun found _ => ?_
  cases found with
  | none => exact iff_of_true (responds_message documented) nofun
  | some info =>
      simp only [Option.some.injEq, forall_eq']
      split
      next foreign =>
        exact iff_of_true (responds_message documented) fun owned => absurd owned foreign
      next owned =>
        refine (responds_makeResponse documented).trans ?_
        simp [Value.isText, fieldsText, not_not.mp owned]

theorem responds_downloadChunk :
    Responds ((downloadChunk library request).result answers) ↔
      ReadsChunk answers (request.getJson library) := by
  unfold downloadChunk ReadsChunk
  rw [responds_authenticated documented]
  unfold Authenticates Responds
  simp only [Program.returns_result_bind, Program.result_lift, getFileId, returns_index_int64,
    returns_value readsKind_getLongLong, returns_value readsKind_getUInt64, ask,
    Program.result_send, id]
  refine and_congr_right fun _ => Returns.congr fun userId _ => forall_congr' fun _ => ?_
  refine and_congr_right fun _ => and_congr_right fun _ => and_congr_right fun _ => ?_
  refine Returns.congr fun data _ => iff_true_intro ?_
  split
  · exact responds_message documented
  · exact responds_data documented rfl

theorem responds_list :
    Responds ((list library request).result answers) ↔
      ListsFiles answers (request.getJson library) := by
  unfold list ListsFiles
  rw [responds_authenticated documented]
  unfold Authenticates Responds
  simp only [Program.returns_result_bind, Program.result_lift, ask, Program.result_send, id]
  refine and_congr_right fun _ => Returns.congr fun userId _ => forall_congr' fun _ => ?_
  refine Returns.congr fun files _ => (responds_makeResponse documented).trans ?_
  simp only [isUtf8_text, true_and, Value.isText, fieldsText, Bool.and_true,
    areText_iff, List.forall_mem_map]

theorem handlers_respond :
    List.Forall₂ (fun handler condition => handler.1 = condition.1 ∧
        (Responds ((handler.2 request).result answers) ↔ condition.2))
      (handlers library) (conditions answers (request.getJson library) request.binaryData) := by
  refine .cons ⟨rfl, responds_entrance documented fun _ _ => rfl⟩ ?_
  refine .cons ⟨rfl, responds_entrance documented fun _ _ => rfl⟩ ?_
  refine .cons ⟨rfl, responds_uploadStart documented⟩ ?_
  refine .cons ⟨rfl, responds_uploadData documented⟩ ?_
  refine .cons ⟨rfl, responds_uploadFinalize documented⟩ ?_
  refine .cons ⟨rfl, responds_download documented⟩ ?_
  refine .cons ⟨rfl, responds_downloadChunk documented⟩ ?_
  refine .cons ⟨rfl, responds_list documented⟩ ?_
  exact .cons ⟨rfl, responds_delete documented⟩ .nil

end Handlers

end Server

namespace Gateway

section Conditions

variable (answers : RpcCall → Reads Value) (j : Value)

/-- The token is a text, and the user whom the service names for it satisfies a
condition. -/
def Authenticates (next : Int → Prop) : Prop :=
  j.Optional "token" .text ∧ (j.textAt "token" ≠ [] →
    Returns (answers ⟨.userService, "VerifyToken",
        .object [("token", .string (j.textAt "token"))], []⟩) fun r =>
      r.Optional "user_id" .integer ∧ (0 < r.longLongAt "user_id" → next (r.longLongAt "user_id")))

/-- The result of a service is an object of texts with the fields of a response. -/
def Forwards (r : Value) : Prop :=
  r.Optional "code" .integer ∧ r.Optional "msg" .text ∧ r.isText = true

/-- A refusal of a service has a text, or none. -/
def Refuses (r : Value) (default : String) : Prop :=
  r.Optional "msg" .text ∧ isUtf8 (r.readAt "msg" (text default) Value.getString) = true

/-- The progress is there and can be serialised. -/
def Reports (r : Value) : Prop :=
  ∃ uploadSize, r.field? "upload_size" = some uploadSize ∧ uploadSize.isText = true

def Enters (method : String) : Prop := Returns (answers ⟨.userService, method, j, []⟩) Forwards

def StartsUpload : Prop :=
  Authenticates answers j fun uid => Returns (answers ⟨.fileService, "UploadStart",
    .object [("filename", j.orNull "filename"), ("filesize", j.orNull "filesize"),
      ("md5", j.orNull "md5"), ("user_id", .number uid)], []⟩) Forwards

def Confirms (args : Value) : Prop :=
  Returns (answers ⟨.fileService, "ConfirmUploadChunk", args, []⟩) fun confirmed =>
    confirmed.Optional "code" .integer ∧
      if confirmed.codeOf ≠ 0 then Refuses confirmed "进度确认失败" else Reports confirmed

def Stores (args filepath : Value) (offset uid : Int) (data : Bytes) : Prop :=
  Returns (answers ⟨.storageService, "WriteChunk", .object [("filepath", filepath),
      ("offset", .number offset), ("size", .number data.length), ("user_id", .number uid)], data⟩)
    fun written =>
      written.Optional "code" .integer ∧
        if written.codeOf ≠ 0 then Refuses written "存储写入失败"
        else written.Optional "written" .integer ∧
          if written.readAt "written" (-1) Value.getLongLong ≠ data.length then
            Refuses written "存储写入失败"
          else Confirms answers args

def SendsData (data : Bytes) : Prop :=
  Authenticates answers j fun uid =>
    j.Optional "offset" .integer ∧ ∃ fileId, j.field? "file_id" = some fileId ∧
      let offset := j.longLongAt "offset"
      let args : Value := .object [("file_id", fileId), ("offset", .number offset),
        ("size", .number data.length), ("user_id", .number uid)]
      Returns (answers ⟨.fileService, "PrepareUploadChunk", args, []⟩) fun prepared =>
        prepared.Optional "code" .integer ∧
          if prepared.codeOf ≠ 0 then Refuses prepared "上传校验失败"
          else prepared.Optional "upload_size" .integer ∧
            if offset + data.length ≤ prepared.longLongAt "upload_size" then Reports prepared
            else ∃ filepath, prepared.field? "filepath" = some filepath ∧
              Stores answers args filepath offset uid data

def CallsWithFile (method : String) (owner : Bool) : Prop :=
  Authenticates answers j fun uid => Returns (answers ⟨.fileService, method,
    .object (("file_id", j.orNull "file_id") :: if owner then [("user_id", .number uid)] else []),
    []⟩) Forwards

def ReadsChunk : Prop :=
  Authenticates answers j fun _ => j.Optional "filepath" .text ∧
    Returns (answers ⟨.storageService, "ReadChunk", .object [
      ("filepath", .string (j.textAt "filepath")), ("offset", j.orNull "offset"),
      ("size", j.orNull "size")], []⟩) fun r => r.Optional "data" .text ∧ r.isText = true

def ListsFiles : Prop :=
  Authenticates answers j fun uid =>
    Returns (answers ⟨.fileService, "QueryFiles", .object [("user_id", .number uid)], []⟩) fun r =>
      r.isText = true

/-- When the handler of a command responds. -/
def conditions (data : Bytes) : List (String × Prop) := [
  ("register", Enters answers j "Register"), ("login", Enters answers j "Login"),
  ("upload_start", StartsUpload answers j), ("upload_data", SendsData answers j data),
  ("upload_finalize", CallsWithFile answers j "UploadFinalize" true),
  ("download", CallsWithFile answers j "GetFileInfo" false),
  ("download_chunk", ReadsChunk answers j), ("list", ListsFiles answers j),
  ("delete", CallsWithFile answers j "Delete" true)]

end Conditions

section Handlers

variable {library : Library} (documented : library.Documented)
  {answers : RpcCall → Reads Value} {request : Message}
include documented

theorem responds_authenticated {next : Value → Int → GatewayProgram (Response library)}
    {holds : Int → Prop}
    (continues : (request.getJson library).isObject = true → ∀ uid,
      (Responds ((next (request.getJson library) uid).result answers) ↔ holds uid)) :
    Responds ((authenticated library request next).result answers) ↔
      Authenticates answers (request.getJson library) holds := by
  have refused : Responds (makeResponse library request (-1) (text "认证失败")) :=
    (responds_makeResponse documented).mpr ⟨isUtf8_text _, rfl⟩
  unfold authenticated Authenticates Responds
  simp only [Program.returns_result_bind, Program.result_lift, returns_value readsKind_getString]
  refine and_congr_right fun token => ?_
  have known : ∀ uid, Returns (Program.result answers (if uid ≤ 0 then
      liftM (makeResponse library request (-1) (text "认证失败"))
      else next (request.getJson library) uid)) (fun _ => True) ↔ (0 < uid → holds uid) := by
    intro uid
    split
    next nobody => exact iff_of_true refused fun somebody => absurd nobody (Int.not_le.mpr somebody)
    next somebody =>
      rw [← continues token.1 uid]
      exact ⟨fun responds _ => responds, fun responds => responds (Int.not_le.mp somebody)⟩
  unfold verifyToken
  by_cases none : (request.getJson library).textAt "token" = []
  · have unread : (request.getJson library).readAt "token" [] Value.getString = [] := none
    rw [unread, if_pos rfl, Program.result_pure, returns_ok, known]
    exact iff_of_true (fun impossible => by cases impossible) fun named => absurd none named
  · have read : (request.getJson library).readAt "token" [] Value.getString =
        (request.getJson library).textAt "token" := rfl
    rw [read, if_neg none, Program.returns_result_bind, callRpc, Program.result_send, id]
    simp only [ne_eq, none, not_false_eq_true, forall_const]
    refine Returns.congr fun r _ => ?_
    rw [Program.result_lift, returns_value readsKind_getLongLong, known, Value.longLongAt]

theorem responds_forward {r : Value} :
    Responds (forward library request r) ↔ Forwards r := by
  unfold forward Forwards Responds
  rw [returns_bind, returns_value readsKind_getInt, returns_bind, returns_value readsKind_getString]
  refine and_congr_right fun _ => and_congr_right fun _ => ?_
  refine (responds_makeResponse documented).trans ?_
  exact ⟨And.right, fun texts => ⟨textAt_isUtf8 texts, texts⟩⟩

theorem responds_entrance {method : String} :
    Responds ((entrance library method request).result answers) ↔
      Enters answers (request.getJson library) method := by
  unfold entrance Enters Responds
  rw [Program.returns_result_bind, callRpc, Program.result_send, id]
  exact Returns.congr fun r _ => responds_forward documented

theorem responds_uploadStart :
    Responds ((uploadStart library request).result answers) ↔
      StartsUpload answers (request.getJson library) := by
  refine responds_authenticated documented fun object uid => ?_
  unfold Responds
  simp only [Program.returns_result_bind, Program.result_lift, returns_index object, callRpc,
    Program.result_send, id]
  exact Returns.congr fun r _ => responds_forward documented

theorem responds_withFile {method : String} {owner : Bool} :
    Responds ((withFile library method owner request).result answers) ↔
      CallsWithFile answers (request.getJson library) method owner := by
  refine responds_authenticated documented fun object uid => ?_
  unfold Responds
  simp only [Program.returns_result_bind, Program.result_lift, returns_index object, callRpc,
    Program.result_send, id]
  exact Returns.congr fun r _ => responds_forward documented

theorem responds_downloadChunk :
    Responds ((downloadChunk library request).result answers) ↔
      ReadsChunk answers (request.getJson library) := by
  refine responds_authenticated documented fun object uid => ?_
  unfold Responds
  simp only [Program.returns_result_bind, Program.result_lift, returns_index object, callRpc,
    returns_value readsKind_getString, Program.result_send, id]
  refine and_congr_right fun _ => Returns.congr fun r _ => and_congr_right fun _ => ?_
  refine (responds_makeResponse documented).trans ?_
  simp

theorem responds_list :
    Responds ((list library request).result answers) ↔
      ListsFiles answers (request.getJson library) := by
  refine responds_authenticated documented fun object uid => ?_
  unfold Responds
  simp only [Program.returns_result_bind, Program.result_lift, callRpc, Program.result_send, id]
  refine Returns.congr fun r _ => (responds_makeResponse documented).trans ?_
  simp

theorem responds_refusal {r : Value} {code : Int} {default : String} :
    Returns (((liftM (r.value "msg" (text default) Value.getString) : GatewayProgram Bytes) >>=
        fun msg => liftM (makeResponse library request code msg)).result answers) (fun _ => True) ↔
      Refuses r default := by
  rw [Program.returns_result_bind, Program.result_lift, returns_value readsKind_getString, Refuses]
  refine and_congr_right fun _ => (responds_makeResponse documented).trans ?_
  simp [Value.isText]

theorem responds_progress {r : Value} {size : Int} :
    Returns (((liftM (r.atKey "upload_size") : GatewayProgram Value) >>= fun uploadSize =>
        liftM (makeResponse library request 0 (text "ok")
          (.object [("upload_size", uploadSize), ("written", .number size)]))).result answers)
        (fun _ => True) ↔ Reports r := by
  rw [Program.returns_result_bind, Program.result_lift, returns_atKey, Reports]
  refine exists_congr fun uploadSize => and_congr_right fun _ =>
    (responds_makeResponse documented).trans ?_
  simp [Value.isText, fieldsText]

theorem responds_uploadData :
    Responds ((uploadData library request).result answers) ↔
      SendsData answers (request.getJson library) request.binaryData := by
  refine responds_authenticated documented fun object uid => ?_
  unfold Responds
  rw [Program.returns_result_bind, Program.result_lift, returns_longLong]
  refine and_congr_right fun _ => ?_
  rw [Program.returns_result_bind, Program.result_lift, returns_atKey]
  refine exists_congr fun fileId => and_congr_right fun _ => ?_
  rw [Program.returns_result_bind, callRpc, Program.result_send, id]
  refine Returns.congr fun prepared _ => ?_
  rw [Program.returns_result_bind, Program.result_lift, returns_code]
  refine and_congr_right fun _ => ?_
  by_cases invalid : prepared.codeOf ≠ 0
  · rw [if_pos invalid, if_pos invalid]
    exact responds_refusal documented
  rw [if_neg invalid, if_neg invalid, Program.returns_result_bind, Program.result_lift,
    returns_longLong]
  refine and_congr_right fun _ => ?_
  by_cases stored : (request.getJson library).longLongAt "offset" + request.binaryData.length ≤
      prepared.longLongAt "upload_size"
  · rw [if_pos stored, if_pos stored]
    exact responds_progress documented
  rw [if_neg stored, if_neg stored, Program.returns_result_bind, Program.result_lift, returns_atKey]
  refine exists_congr fun filepath => and_congr_right fun _ => ?_
  rw [Stores, Program.returns_result_bind, callRpc, Program.result_send, id]
  refine Returns.congr fun written _ => ?_
  rw [Program.returns_result_bind, Program.result_lift, returns_code]
  refine and_congr_right fun _ => ?_
  by_cases failed : written.codeOf ≠ 0
  · rw [if_pos failed, if_pos failed, Program.returns_result_bind, Program.result_pure, returns_ok]
    beta_reduce
    rw [if_pos (.inl failed)]
    exact responds_refusal documented
  rw [if_neg failed, if_neg failed, Program.returns_result_bind, Program.result_lift,
    returns_value readsKind_getLongLong]
  refine and_congr_right fun _ => ?_
  beta_reduce
  by_cases partly : written.readAt "written" (-1) Value.getLongLong ≠ request.binaryData.length
  · rw [if_pos partly, if_pos (.inr partly)]
    exact responds_refusal documented
  rw [if_neg partly, if_neg (by simp [failed, partly]), Confirms, Program.returns_result_bind, callRpc,
    Program.result_send, id]
  refine Returns.congr fun confirmed _ => ?_
  rw [Program.returns_result_bind, Program.result_lift, returns_code]
  refine and_congr_right fun _ => ?_
  by_cases refused : confirmed.codeOf ≠ 0
  · rw [if_pos refused, if_pos refused]
    exact responds_refusal documented
  · rw [if_neg refused, if_neg refused]
    exact responds_progress documented

theorem handlers_respond :
    List.Forall₂ (fun handler condition => handler.1 = condition.1 ∧
        (Responds ((handler.2 request).result answers) ↔ condition.2))
      (handlers library) (conditions answers (request.getJson library) request.binaryData) := by
  refine .cons ⟨rfl, responds_entrance documented⟩ ?_
  refine .cons ⟨rfl, responds_entrance documented⟩ ?_
  refine .cons ⟨rfl, responds_uploadStart documented⟩ ?_
  refine .cons ⟨rfl, responds_uploadData documented⟩ ?_
  refine .cons ⟨rfl, responds_withFile documented⟩ ?_
  refine .cons ⟨rfl, responds_withFile documented⟩ ?_
  refine .cons ⟨rfl, responds_downloadChunk documented⟩ ?_
  refine .cons ⟨rfl, responds_list documented⟩ ?_
  exact .cons ⟨rfl, responds_withFile documented⟩ .nil

end Handlers

end Gateway

end FileServer.Routing
