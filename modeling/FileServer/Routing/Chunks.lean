import FileServer.Routing.Server
import FileServer.Routing.Services

/-!
# Chunks from both servers

The `download_chunk` request of `FileClient::DownloadFile` has no `filepath`,
which the handler of the gateway reads, while the single process finds the file
by its id.
-/

namespace FileServer.Routing

open FileServer.Json FileServer.Protocol FileServer.Transition
open FileServer.Service (FileInfo Outcome World consult)

/-- The request that `DownloadFile` builds. -/
def downloadChunkRequest (token : Bytes) (fileId offset size : Int64) : Value :=
  .object [("cmd", .string (text "download_chunk")), ("file_id", .number fileId.toInt),
    ("offset", .number offset.toInt), ("size", .number size.toInt), ("token", .string token)]

def range (content : Bytes) (offset size : Int64) : Bytes :=
  (content.drop offset.toInt.toNat).take size.toInt.toNat

def SameAnswer {library : Library} (first second : Reads (Response library)) : Prop :=
  ∃ response response', first = .ok response ∧ second = .ok response' ∧
    response.code = response'.code ∧ response.binaryData = response'.binaryData

/-- The owner of a completed file asks for a range of it. -/
structure OwnersRequest (library : Library) (accounts : Accounts) (world : World)
    (request : Message) (token content : Bytes) (fileId offset size : Int64) (info : FileInfo) :
    Prop where
  built : request.getJson library = downloadChunkRequest token fileId offset size
  owner : accounts.verifyToken token = info.userId
  user : 0 < info.userId
  found : world.fileInfo.get? fileId.toInt = some info
  completed : info.status = .kCompleted
  named : info.filepath ≠ []
  stored : world.files info.filepath = some content
  bounded : content.length < 2 ^ 63
  sized : info.filesize.toInt ≤ content.length
  inFile : 0 ≤ offset.toInt
  below : offset.toInt < info.filesize.toInt
  positive : 0 < size.toInt

section

variable {library : Library} {accounts : Accounts} {world : World} {request : Message}
  {token content : Bytes} {fileId offset size : Int64} {info : FileInfo}

theorem getCmd_downloadChunk
    (built : request.getJson library = downloadChunkRequest token fileId offset size) :
    request.getCmd library = text "download_chunk" := by
  simp [Message.getCmd, built, downloadChunkRequest, Value.field?]

theorem route_server (cmd : request.getCmd library = text "download_chunk") :
    route library (Server.handlers library) request = Server.downloadChunk library request := by
  have found : find library (Server.handlers library) (text "download_chunk") =
      some (Server.downloadChunk library) := by
    rfl
  simp only [route, cmd, found]

theorem route_gateway (cmd : request.getCmd library = text "download_chunk") :
    route library (Gateway.handlers library) request = Gateway.downloadChunk library request := by
  have found : find library (Gateway.handlers library) (text "download_chunk") =
      some (Gateway.downloadChunk library) := by
    rfl
  simp only [route, cmd, found]

theorem getInt64_toInt (x : Int64) : Value.getInt64 (.number x.toInt) = .ok x.toInt := by
  have low := x.le_toInt
  have high := x.toInt_lt
  rw [Value.getInt64, Int.bmod_eq_of_le (by omega) (by omega)]

theorem getLongLong_toInt (x : Int64) : Value.getLongLong (.number x.toInt) = .ok x.toInt := by
  have low := x.le_toInt
  have high := x.toInt_lt
  rw [Value.getLongLong, Value.getInteger, Int.bmod_eq_of_le (by omega) (by omega)]

theorem OwnersRequest.something
    (asked : OwnersRequest library accounts world request token content fileId offset size info) :
    range content offset size ≠ [] := by
  obtain ⟨sized, inFile, below, positive⟩ :=
    (⟨asked.sized, asked.inFile, asked.below, asked.positive⟩ : _ ∧ _ ∧ _ ∧ _)
  rw [← List.length_pos_iff, range, List.length_take, List.length_drop]
  omega

theorem OwnersRequest.server
    (asked : OwnersRequest library accounts world request token content fileId offset size info) :
    (Server.respond library accounts [] world request).1 =
      makeResponse library request 0 (text "ok")
        (.object [("size", .number (range content offset size).length)])
        (range content offset size) := by
  obtain ⟨built, owner, user, found, completed, named, stored, bounded, sized, inFile, below,
    positive⟩ := id asked
  have tokenRead : (downloadChunkRequest token fileId offset size).value "token" []
      Value.getString = .ok token := rfl
  have fileIdRead : Server.getFileId (downloadChunkRequest token fileId offset size) =
      .ok fileId.toInt := getInt64_toInt fileId
  have offsetRead : (downloadChunkRequest token fileId offset size).value "offset" 0
      Value.getLongLong = .ok offset.toInt := getLongLong_toInt offset
  have sizeRead : (downloadChunkRequest token fileId offset size).value "size" 0
      Value.getUInt64 = .ok (size.toInt % 2 ^ 64) := rfl
  have authorized : ¬info.userId ≤ 0 := Int.not_le.mpr user
  simp only [Server.respond, route_server (getCmd_downloadChunk built), Server.downloadChunk,
    Server.authenticated, Server.getToken, built, tokenRead, Program.perform_bind,
    Program.perform_lift, Server.ask, Program.perform_send, Server.step, Server.serve, owner,
    authorized, fileIdRead, offsetRead, sizeRead, id, if_false]
  have top := size.toInt_lt
  have length : (UInt64.ofNat (size.toInt % 2 ^ 64).toNat).toNat = size.toInt.toNat := by
    rw [UInt64.toNat_ofNat', Nat.mod_eq_of_lt (by omega), Int.emod_eq_of_lt (by omega) (by omega)]
  have data : consult world ([].tail.headD []) (Service.FileService.downloadChunk fileId.toInt
      info.userId (.ofInt offset.toInt) (.ofNat (size.toInt % 2 ^ 64).toNat)) =
        .ok (range content offset size) := by
    rw [Int64.ofInt_toInt]
    refine (Service.downloadChunk_eq found rfl (by simp [completed])).trans ?_
    rw [Service.readChunk_ok named stored bounded inFile (by omega) (by omega), length, range]
  rw [data]
  simp only [if_neg asked.something, Program.perform_lift]

def Dataless (r : Value) : Prop :=
  ∀ data, r.value "data" [] Value.getString = .ok data → data = []

theorem dataless_failure (code : Value) (msg : Value) :
    Dataless (.object [("code", code), ("msg", msg)]) :=
  fun _ read => (Except.ok.inj read).symm

theorem readChunk_empty {outcome : Outcome} {offset size method r : Value}
    (read : Services.readChunk (.object [("method", method), ("filepath", .string []),
      ("offset", offset), ("size", size)]) outcome world = .ok r) : Dataless r := by
  simp only [Services.readChunk, bind_eq_ok, pure_eq_ok] at read
  obtain ⟨filepath, field, path, named, _, _, _, _, data, chunk, rfl⟩ := read
  obtain rfl : Value.string [] = filepath := Except.ok.inj field
  obtain rfl : [] = path := Except.ok.inj named
  have none : data = [] := by
    simp only [World.readChunk, ne_eq, not_true_eq_false, and_false, if_false] at chunk
    exact (Except.ok.inj chunk).symm
  subst none
  exact fun _ found => (Except.ok.inj found).symm

theorem readChunk_pathless (delivery : Delivery) (offset size : Value) {r : Value}
    (read : (Services.callRpc library accounts delivery ⟨.storageService, "ReadChunk",
      .object [("filepath", .string []), ("offset", offset), ("size", size)], []⟩ world).1 = .ok r) :
    Dataless r := by
  have args : ∀ j, Services.requestJson library ⟨.storageService, "ReadChunk",
      .object [("filepath", .string []), ("offset", offset), ("size", size)], []⟩ = .ok j →
      j = .object [("method", .string (text "ReadChunk")), ("filepath", .string []),
        ("offset", offset), ("size", size)] := by
    intro j sent
    obtain ⟨_, _, rfl⟩ := map_eq_ok.mp sent
    rfl
  cases delivery with
  | unreachable msg =>
      obtain rfl := Except.ok.inj read
      exact dataless_failure _ _
  | lost =>
      obtain ⟨_, _, rfl⟩ := map_eq_ok.mp read
      exact dataless_failure _ _
  | late outcomes =>
      simp only [Services.callRpc] at read
      split at read
      · cases read
      · obtain rfl := Except.ok.inj read
        exact dataless_failure _ _
  | answered outcomes =>
      simp only [Services.callRpc] at read
      split at read
      · cases read
      next j sent =>
        obtain rfl := args j sent
        split at read
        next value answered =>
          obtain rfl := Except.ok.inj read
          obtain ⟨result, served, dumped⟩ := bind_eq_ok.mp answered
          obtain ⟨_, _, rfl⟩ := map_eq_ok.mp dumped
          change Rpc.caught library _ (Services.readChunk _ (outcomes.headD default) world) =
            .ok result at served
          cases returned : Services.readChunk (.object [("method", .string (text "ReadChunk")),
              ("filepath", .string []), ("offset", offset), ("size", size)])
              (outcomes.headD default) world with
          | error exception =>
              rw [returned] at served
              cases exception with
              | other => cases served
              | std | json => exact Except.ok.inj served ▸ dataless_failure _ _
          | ok value =>
              rw [returned] at served
              obtain rfl := Except.ok.inj served
              exact readChunk_empty returned
        · obtain rfl := Except.ok.inj read
          exact dataless_failure _ _

theorem makeResponse_ok {code : Int} {msg binary : Bytes} {data : Value}
    {response : Response library}
    (made : makeResponse library request code msg data binary = .ok response) :
    response.requestId = request.header.requestId ∧
      response.json = responseJson code msg data ∧ response.binaryData = binary :=
  setJson_ok made

theorem gateway_chunk (built : request.getJson library = downloadChunkRequest token fileId offset size)
    {deliveries : List Delivery} {response : Response library}
    (answered : (Services.respond library accounts deliveries world request).1 = .ok response) :
    response.binaryData = [] := by
  have tokenRead : (downloadChunkRequest token fileId offset size).value "token" []
      Value.getString = .ok token := rfl
  have filepathRead : (downloadChunkRequest token fileId offset size).value "filepath" []
      Value.getString = .ok [] := rfl
  have offsetRead : (downloadChunkRequest token fileId offset size).index "offset" =
      .ok (.number offset.toInt) := rfl
  have sizeRead : (downloadChunkRequest token fileId offset size).index "size" =
      .ok (.number size.toInt) := rfl
  simp only [Services.respond, route_gateway (getCmd_downloadChunk built), Gateway.downloadChunk,
    Gateway.authenticated, built, tokenRead, Program.perform_bind, Program.perform_lift] at answered
  generalize (Gateway.verifyToken token).perform _ _ = verified at answered
  obtain ⟨uid | uid, deliveries, world⟩ := verified
  · cases answered
  · simp only at answered
    split at answered
    · exact (makeResponse_ok answered).2.2
    · simp only [filepathRead, offsetRead, sizeRead, Program.perform_bind, Program.perform_lift,
        Gateway.callRpc, Program.perform_send, Services.step, id] at answered
      have pathless := @readChunk_pathless library accounts world (deliveries.headD default)
        (.number offset.toInt) (.number size.toInt)
      generalize Services.callRpc library accounts (deliveries.headD default) _ world = returned
        at answered pathless
      obtain ⟨exception | r, world⟩ := returned
      · cases answered
      · simp only at answered
        cases read : r.value "data" [] Value.getString with
        | error exception =>
            rw [read] at answered
            cases answered
        | ok data =>
            rw [read] at answered
            obtain rfl := pathless rfl data read
            exact (makeResponse_ok answered).2.2

theorem OwnersRequest.nothing_of_same
    (asked : OwnersRequest library accounts world request token content fileId offset size info)
    {deliveries : List Delivery}
    (same : SameAnswer (Server.respond library accounts [] world request).1
      (Services.respond library accounts deliveries world request).1) :
    range content offset size = [] := by
  obtain ⟨response, response', answered, answered', _, bytes⟩ := same
  rw [asked.server] at answered
  rw [(makeResponse_ok answered).2.2, gateway_chunk asked.built answered'] at bytes
  exact bytes

end

/-- Both servers never answer the same. -/
theorem downloadChunk_never_same {library : Library} {accounts : Accounts} {world : World}
    {request : Message} {token content : Bytes} {fileId offset size : Int64} {info : FileInfo}
    (asked : OwnersRequest library accounts world request token content fileId offset size info)
    (deliveries : List Delivery) :
    ¬SameAnswer (Server.respond library accounts [] world request).1
      (Services.respond library accounts deliveries world request).1 :=
  fun same => asked.something (asked.nothing_of_same same)

section Finished

open FileServer.Service (finished)

/-- The request for both bytes of a file that was uploaded. -/
def sampleRequest : Value := downloadChunkRequest [116] 1 0 2

def sampleAccounts : Accounts where
  register _ _ := []
  login _ _ := []
  verifyToken token := if token = [116] then 1 else -1

def sampleMessage : Message := ⟨{}, sampleRequest.print, []⟩

theorem ownersRequest_sample : ∃ info content, OwnersRequest (sampleLibrary [sampleRequest])
    sampleAccounts finished sampleMessage [116] content 1 0 2 info := by
  have row : (finished.fileInfo.get? 1).map (fun info => (info.userId, info.status, info.filesize,
      info.filepath)) = some (1, .kCompleted, 2, Service.generateFilepath 1 [97] default) := by
    decide +kernel
  have stored : finished.files (Service.generateFilepath 1 [97] default) = some [7, 8] := by
    decide +kernel
  obtain ⟨info, found, fields⟩ := Option.map_eq_some_iff.mp row
  simp only [Prod.mk.injEq] at fields
  obtain ⟨owner, completed, filesize, path⟩ := fields
  refine ⟨info, [7, 8], ?_⟩
  constructor
  · rfl
  · rw [owner]
    rfl
  · rw [owner]
    decide
  · exact found
  · exact completed
  · rw [path]
    decide +kernel
  · rw [path]
    exact stored
  · decide
  · rw [filesize]
    decide
  · decide
  · rw [filesize]
    decide
  · decide

theorem downloadChunk_finished : ∃ info content,
    OwnersRequest (sampleLibrary [sampleRequest]) sampleAccounts finished sampleMessage [116]
      content 1 0 2 info ∧
    ¬SameAnswer (Server.respond (sampleLibrary [sampleRequest]) sampleAccounts [] finished
      sampleMessage).1
      (Services.respond (sampleLibrary [sampleRequest]) sampleAccounts [] finished sampleMessage).1 := by
  obtain ⟨info, content, asked⟩ := ownersRequest_sample
  exact ⟨info, content, asked, downloadChunk_never_same asked []⟩

/-- The gateway serves no byte of the file. -/
theorem downloadChunk_differs : ¬∀ (library : Library) (accounts : Accounts) (world : World)
    (request : Message) (token content : Bytes) (fileId offset size : Int64) (info : FileInfo),
    OwnersRequest library accounts world request token content fileId offset size info →
    SameAnswer (Server.respond library accounts [] world request).1
      (Services.respond library accounts [] world request).1 := by
  intro same
  obtain ⟨info, content, asked⟩ := ownersRequest_sample
  exact asked.something (asked.nothing_of_same (same _ _ _ _ _ _ _ _ _ _ asked))

end Finished

end FileServer.Routing
