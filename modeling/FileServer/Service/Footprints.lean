import FileServer.Service.System

/-!
# The calls of a request

Which statements and file operations the handler of a request can perform.
-/

namespace FileServer.Service

open FileServer.Transition

def Permitted : Request → Call → Prop
  | .uploadStart userId .., .findIncompleteByKey user .. => user = userId
  | .uploadStart userId .., .createUserDir user => user = userId
  | .uploadStart .., .localtime => True
  | .uploadStart userId .., .insert file =>
      file.userId = userId ∧ file.uploadSize = 0 ∧ file.status = .kUploading
  | .uploadData fileId .., .findById id => id = fileId
  | .uploadData _ _ data offset, .writeChunk _ data' offset' => data' = data ∧ offset' = offset
  | .uploadData fileId .., .updateUploadSize id _ => id = fileId
  | .uploadFinalize fileId _, .findById id => id = fileId
  | .uploadFinalize .., .getFileSize _ => True
  | .uploadFinalize fileId _, .updateStatus id status => id = fileId ∧ status = .kCompleted
  | .uploadFinalize fileId _, .updateUploadSize id _ => id = fileId
  | .delete fileId _, .findById id => id = fileId
  | .delete fileId _, .updateStatus id status => id = fileId ∧ status = .kDeleted
  | .delete .., .deleteFile _ => True
  | .prepareUploadChunk fileId .., .findById id => id = fileId
  | .confirmUploadChunk fileId .., .findById id => id = fileId
  | .confirmUploadChunk fileId userId offset _, .extendUpload id user start _ =>
      id = fileId ∧ user = userId ∧ start = offset
  | .finalizeUpload fileId _, .findById id => id = fileId
  | .finalizeUpload .., .getFileSize _ => True
  | .finalizeUpload fileId _, .updateStatus id status => id = fileId ∧ status = .kCompleted
  | .writeChunk _ userId .., .createUserDir user => user = userId
  | .writeChunk filepath _ offset _ data, .writeChunk filepath' data' offset' =>
      filepath' = filepath ∧ data' = data ∧ offset' = offset
  | _, _ => False

theorem calls_ask {α : Type} {allowed : Call → Prop} {call : Call} {next : call.Answer → Handler α}
    (permitted : allowed call) (continues : ∀ answer, (next answer).Calls allowed) :
    (ask call >>= next).Calls allowed :=
  ⟨permitted, continues⟩

theorem calls_validateChunk {allowed : Call → Prop} {fileId userId : Int} {offset size : Int64}
    (permitted : allowed (.findById fileId)) :
    (validateChunk fileId userId offset size).Calls allowed := by
  refine calls_ask permitted ?_
  rintro (_ | info)
  · trivial
  · exact .lift_bind fun _ => trivial

theorem handler_calls (request : Request) : (handler request).Calls (Permitted request) := by
  cases request with
  | uploadStart userId filename filesize md5 =>
      refine .bind ?_ fun _ => trivial
      unfold FileService.uploadStart
      split
      · trivial
      refine calls_ask rfl ?_
      rintro (_ | ⟨id, existing⟩)
      · refine calls_ask rfl fun _ => calls_ask trivial fun tm => calls_ask ⟨rfl, rfl, rfl⟩ ?_
        intro fileId
        show Program.Calls _ (if _ then _ else _)
        split <;> trivial
      · trivial
  | uploadData fileId userId data offset =>
      refine .bind (calls_ask rfl ?_) fun _ => trivial
      rintro (_ | info)
      · trivial
      show Program.Calls _ (if _ then _ else _)
      split
      · trivial
      split
      · trivial
      refine calls_ask ⟨rfl, rfl⟩ fun written => ?_
      show Program.Calls _ (if _ then _ else _)
      split
      · trivial
      exact .lift_bind fun finish => calls_ask rfl fun _ => trivial
  | uploadFinalize fileId userId =>
      refine .bind (calls_ask rfl ?_) fun _ => trivial
      rintro (_ | info)
      · trivial
      show Program.Calls _ (if _ then _ else _)
      split
      · trivial
      refine calls_ask trivial fun diskSize => ?_
      show Program.Calls _ (if _ then _ else _)
      split
      · trivial
      exact calls_ask ⟨rfl, rfl⟩ fun _ => calls_ask rfl fun _ => trivial
  | delete fileId userId =>
      refine .bind (calls_ask rfl ?_) fun _ => trivial
      rintro (_ | info)
      · trivial
      show Program.Calls _ (if _ then _ else _)
      split
      · trivial
      exact calls_ask ⟨rfl, rfl⟩ fun _ => calls_ask trivial fun _ => trivial
  | prepareUploadChunk fileId userId offset size =>
      refine .bind (calls_validateChunk rfl) ?_
      rintro (_ | info) <;> trivial
  | confirmUploadChunk fileId userId offset size =>
      refine .bind (calls_validateChunk rfl) ?_
      rintro (_ | info)
      · trivial
      refine .bind ?_ fun confirmed => ?_
      · refine .lift_bind fun finish => calls_ask ⟨rfl, rfl, rfl⟩ ?_
        rintro (_ | affected)
        · trivial
        show Program.Calls _ (if _ then _ else _)
        split
        · trivial
        refine calls_ask rfl ?_
        rintro (_ | info) <;> trivial
      · show Program.Calls _ (if _ then _ else _)
        split
        · trivial
        refine calls_ask rfl ?_
        rintro (_ | info) <;> trivial
  | finalizeUpload fileId userId =>
      refine calls_ask rfl ?_
      rintro (_ | info)
      · trivial
      show Program.Calls _ (if _ then _ else _)
      split
      · trivial
      split
      · trivial
      split
      · trivial
      refine calls_ask trivial fun fileSize => ?_
      show Program.Calls _ (if _ then _ else _)
      split
      · trivial
      exact calls_ask ⟨rfl, rfl⟩ fun _ => trivial
  | writeChunk filepath userId offset size data =>
      show (writeChunk filepath userId offset size data).Calls _
      unfold writeChunk
      split
      · trivial
      refine calls_ask rfl fun created => ?_
      show Program.Calls _ (if _ then _ else _)
      split
      · trivial
      exact calls_ask ⟨rfl, rfl, rfl⟩ fun _ => trivial
end FileServer.Service
