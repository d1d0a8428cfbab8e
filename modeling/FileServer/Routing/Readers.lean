import FileServer.Routing.Chunks
import FileServer.Routing.Isolation

/-!
# Readers behind the gateway

What the gateway responds to a user depends on his own records and their files,
as long as his requests name no record and no file of somebody else.
-/

namespace FileServer.Routing

open FileServer.Json FileServer.Transition
open FileServer.Protocol (Message Response)
open FileServer.Service (World Outcome FileInfo Agree Alike Has)

namespace Services

section Handlers

variable {library : Library} {accounts : Accounts} {userId : Int} {world other : World}
  {deliveries : List Delivery} {α : Type}

abbrev Isolated (library : Library) (accounts : Accounts) (userId : Int)
    (program : Gateway.GatewayProgram α) (state last : List Delivery × World) : Prop :=
  Program.Agrees (step library accounts) (fun _ => Alike userId) program state last

theorem isolated_rpc {service : ServiceName} {method : String} {args : Value}
    {binary : Service.Bytes} {next : Value → Gateway.GatewayProgram α}
    (called : Matches userId
      (callRpc library accounts (deliveries.headD default) ⟨service, method, args, binary⟩ world)
      (callRpc library accounts (deliveries.headD default) ⟨service, method, args, binary⟩ other))
    (continues : ∀ r after after', callRpc library accounts (deliveries.headD default)
        ⟨service, method, args, binary⟩ world = (.ok r, after) → Agree userId after after' →
      Isolated library accounts userId (next r) (deliveries.tail, after) (deliveries.tail, after')) :
    Isolated library accounts userId (Gateway.callRpc service method args binary >>= next)
      (deliveries, world) (deliveries, other) := by
  apply Program.agrees_send_bind
  · exact called.1
  · exact fun _ _ => ⟨rfl, called.2⟩
  · exact fun r returned => continues r _ _ (Prod.ext returned rfl) called.2

theorem isolated_lift {β : Type} {result : Reads β} {next : β → Gateway.GatewayProgram α}
    (agree : Agree userId world other)
    (continues : ∀ value, result = .ok value → Isolated library accounts userId (next value)
      (deliveries, world) (deliveries, other)) :
    Isolated library accounts userId (liftM result >>= next) (deliveries, world)
      (deliveries, other) :=
  Program.agrees_lift_bind (fun _ => ⟨rfl, agree⟩) continues

theorem isolated_done {result : Reads α} (agree : Agree userId world other) :
    Isolated library accounts userId (liftM result) (deliveries, world) (deliveries, other) :=
  Program.agrees_done ⟨rfl, agree⟩

theorem verifyToken_known (delivery : Delivery) (token : Service.Bytes) :
    ∃ result, (∀ world, callRpc library accounts delivery
        ⟨.userService, "VerifyToken", .object [("token", .string token)], []⟩ world =
          (result, world)) ∧
      ∀ r uid, result = .ok r → r.value "user_id" 0 Value.getLongLong = .ok uid → 0 < uid →
        uid = (accounts.verifyToken token).bmod (2 ^ 64) := by
  have unanswered : ∀ code msg uid, Value.value (.object [("code", code), ("msg", msg)]) "user_id" 0
      Value.getLongLong = .ok uid → ¬0 < uid := by
    intro code msg uid read
    obtain rfl : 0 = uid := Except.ok.inj read
    exact lt_irrefl 0
  have sent : ∀ args, requestJson library
      ⟨.userService, "VerifyToken", .object [("token", .string token)], []⟩ = .ok args →
      args = .object [("method", .string (text "VerifyToken")), ("token", .string token)] := by
    intro args sent
    rw [requestJson_object sent]
    rfl
  let call : RpcCall := ⟨.userService, "VerifyToken", .object [("token", .string token)], []⟩
  cases delivery with
  | unreachable msg =>
      refine ⟨_, fun _ => rfl, ?_⟩
      rintro r uid returned read positive
      obtain rfl := Except.ok.inj returned
      exact absurd positive (unanswered _ _ _ read)
  | lost =>
      refine ⟨_, fun _ => rfl, ?_⟩
      rintro r uid returned read positive
      obtain ⟨_, _, rfl⟩ := map_eq_ok.mp returned
      exact absurd positive (unanswered _ _ _ read)
  | late outcomes =>
      simp only [callRpc]
      cases json : requestJson library call with
      | error exception => exact ⟨_, fun _ => rfl, fun _ _ returned => by cases returned⟩
      | ok args =>
          refine ⟨_, fun _ => rfl, ?_⟩
          rintro r uid returned read positive
          obtain rfl := Except.ok.inj returned
          exact absurd positive (unanswered _ _ _ read)
  | answered outcomes =>
      simp only [callRpc]
      cases json : requestJson library call with
      | error exception => exact ⟨_, fun _ => rfl, fun _ _ returned => by cases returned⟩
      | ok args =>
          obtain rfl := sent args json
          let verified : Value := .object [("code", .number (if 0 < accounts.verifyToken token then 0
            else -1)), ("user_id", .number (accounts.verifyToken token))]
          have served : ∀ world, serve library accounts outcomes ⟨.userService, "VerifyToken",
              .object [("method", .string (text "VerifyToken")), ("token", .string token)], []⟩
              world = (.ok verified, world) := fun _ => rfl
          simp only [served, Except.bind]
          cases library.dump verified with
          | error exception =>
              refine ⟨_, fun _ => rfl, ?_⟩
              rintro r uid returned read positive
              obtain rfl := Except.ok.inj returned
              exact absurd positive (unanswered _ _ _ read)
          | ok body =>
              refine ⟨_, fun _ => rfl, ?_⟩
              rintro r uid returned read positive
              obtain rfl := Except.ok.inj returned
              exact (Except.ok.inj read).symm

variable (agree : Agree userId world other)
include agree

def Sent (library : Library) (accounts : Accounts) (userId : Int) (request : Message) : Prop :=
  ∀ token, (request.getJson library).value "token" [] Value.getString = .ok token → token ≠ [] →
    accounts.verifyToken token = userId

theorem isolated_authenticated {request : Message}
    {next : Value → Int → Gateway.GatewayProgram (Response library)}
    (bounded : userId.bmod (2 ^ 64) = userId) (sent : Sent library accounts userId request)
    (continues : Isolated library accounts userId (next (request.getJson library) userId)
      (deliveries.tail, world) (deliveries.tail, other)) :
    Isolated library accounts userId (Gateway.authenticated library request next)
      (deliveries, world) (deliveries, other) := by
  refine isolated_lift agree fun token tokenRead => ?_
  have verified : Program.Agrees (step library accounts) (fun result state last =>
      Alike userId state last ∧ ∀ uid, result = .ok uid → 0 < uid →
        uid = userId ∧ state = (deliveries.tail, world) ∧ last = (deliveries.tail, other))
      (Gateway.verifyToken token) (deliveries, world) (deliveries, other) := by
    unfold Gateway.verifyToken
    split
    · refine Program.agrees_done ⟨⟨rfl, agree⟩, ?_⟩
      rintro uid returned positive
      obtain rfl : -1 = uid := Except.ok.inj returned
      cases positive
    next named =>
      obtain ⟨result, known, owner⟩ :=
        @verifyToken_known library accounts (deliveries.headD default) token
      have stepped : ∀ before, step library accounts
          ⟨.userService, "VerifyToken", .object [("token", .string token)], []⟩
          (deliveries, before) = (result, deliveries.tail, before) := by
        intro before
        simp only [step, known]
      apply Program.agrees_send_bind
      · rw [stepped, stepped]
      · rw [stepped, stepped]
        rintro exception returned
        exact ⟨⟨rfl, agree⟩, fun _ impossible => by cases impossible⟩
      · rw [stepped, stepped]
        rintro r returned
        refine Program.agrees_done ⟨⟨rfl, agree⟩, ?_⟩
        rintro uid read positive
        refine ⟨?_, rfl, rfl⟩
        rw [owner r uid returned read positive, sent token tokenRead named, bounded]
  refine verified.bind (fun _ _ _ => And.left) ?_
  rintro uid state last ⟨alike, authentic⟩
  show Isolated library accounts userId (if _ then _ else _) state last
  split
  · exact Program.agrees_done alike
  next positive =>
    obtain ⟨rfl, rfl, rfl⟩ := authentic uid rfl (Int.not_le.mp positive)
    exact continues

/-- A method that has nothing to do with records and files. -/
theorem isolated_entrance {method : String} {request : Message}
    (registered : ∀ outcomes args, ∃ result, ∀ before,
      methods accounts outcomes ⟨.userService, method, args, []⟩ before = some (result, before)) :
    Isolated library accounts userId (Gateway.entrance library method request)
      (deliveries, world) (deliveries, other) := by
  refine isolated_rpc ?_ fun r _ _ _ agreeAfter => isolated_done agreeAfter
  refine callRpc_matches agree fun outcomes args _ json => ?_
  obtain ⟨result, answers⟩ := registered outcomes args
  exact serve_matches (answers world) (answers other) ⟨rfl, agree⟩

section Authenticated

variable {request : Message} (bounded : userId.bmod (2 ^ 64) = userId)
  (sent : Sent library accounts userId request)
include bounded sent

theorem isolated_list :
    Isolated library accounts userId (Gateway.list library request)
      (deliveries, world) (deliveries, other) := by
  refine isolated_authenticated agree bounded sent ?_
  refine isolated_rpc ?_ fun r _ _ _ agreeAfter => isolated_done agreeAfter
  refine callRpc_matches agree fun outcomes args _ json => ?_
  obtain rfl := requestJson_object json
  refine serve_matches rfl rfl ⟨?_, agree⟩
  exact queryFiles_eq agree (congrArg Except.ok bounded)

def fileArgs (method : String) (owner : Option Int) (fileId : Value) : Value :=
  .object (("method", .string (text method)) :: ("file_id", fileId) ::
    (owner.map fun userId => ("user_id", .number userId)).toList)

theorem isolated_withFile {method : String} {owner : Bool}
    (served : ∀ outcomes fileId, (request.getJson library).index "file_id" = .ok fileId →
      Matches userId
        (serve library accounts outcomes ⟨.fileService, method,
          fileArgs method (if owner then some userId else none) fileId, []⟩ world)
        (serve library accounts outcomes ⟨.fileService, method,
          fileArgs method (if owner then some userId else none) fileId, []⟩ other)) :
    Isolated library accounts userId (Gateway.withFile library method owner request)
      (deliveries, world) (deliveries, other) := by
  refine isolated_authenticated agree bounded sent ?_
  refine isolated_lift agree fun fileId read => ?_
  refine isolated_rpc ?_ fun r _ _ _ agreeAfter => isolated_done agreeAfter
  refine callRpc_matches agree fun outcomes args _ json => ?_
  have sentArgs : args = fileArgs method (if owner then some userId else none) fileId := by
    rw [requestJson_object json]
    cases owner <;> rfl
  rw [sentArgs]
  exact served outcomes fileId read

theorem isolated_uploadFinalize :
    Isolated library accounts userId (Gateway.uploadFinalize library request)
      (deliveries, world) (deliveries, other) := by
  apply isolated_withFile agree bounded sent
  intro outcomes fileId _
  exact serve_matches rfl rfl (uploadFinalize_matches agree (congrArg Except.ok bounded))

theorem isolated_delete :
    Isolated library accounts userId (Gateway.delete library request)
      (deliveries, world) (deliveries, other) := by
  apply isolated_withFile agree bounded sent
  intro outcomes fileId _
  exact serve_matches rfl rfl (delete_matches agree (congrArg Except.ok bounded))

/-- The record that a `download` request names. -/
def recordOf (j : Value) : Reads Int := do
  let fileId ← j.index "file_id"
  fileId.getInt64

theorem isolated_download
    (same : ∀ fileId, recordOf (request.getJson library) = .ok fileId →
      world.fileInfo.get? fileId = other.fileInfo.get? fileId) :
    Isolated library accounts userId (Gateway.download library request)
      (deliveries, world) (deliveries, other) := by
  apply isolated_withFile agree bounded sent
  intro outcomes value read
  refine serve_matches rfl rfl (getFileInfo_matches agree fun fileId asked => same fileId ?_)
  rw [recordOf, read]
  exact asked

/-- The range of a file that a `download_chunk` request names. -/
def chunkOf (j : Value) : Reads (Service.Bytes × Int64 × UInt64) := do
  let filepath ← j.value "filepath" [] Value.getString
  let offset ← j.index "offset"
  let size ← j.index "size"
  let offset ← offset.getInt64
  let size ← size.getUInt64
  return (filepath, .ofInt offset, .ofNat size.toNat)

theorem isolated_downloadChunk
    (same : ∀ filepath offset size, chunkOf (request.getJson library) = .ok (filepath, offset, size) →
      ∀ opens, world.readChunk opens filepath offset size = other.readChunk opens filepath offset size) :
    Isolated library accounts userId (Gateway.downloadChunk library request)
      (deliveries, world) (deliveries, other) := by
  refine isolated_authenticated agree bounded sent ?_
  refine isolated_lift agree fun filepath named => ?_
  refine isolated_lift agree fun offset started => ?_
  refine isolated_lift agree fun size sized => ?_
  refine isolated_rpc ?_ fun r _ _ _ agreeAfter => isolated_lift agreeAfter fun data _ =>
    isolated_done agreeAfter
  refine callRpc_matches agree fun outcomes args _ json => ?_
  obtain rfl := requestJson_object json
  refine serve_matches rfl rfl ⟨?_, agree⟩
  refine readChunk_eq fun path start length pathRead offsetRead sizeRead => ?_
  obtain rfl : filepath = path := Value.string.inj (Except.ok.inj pathRead)
  refine same filepath _ _ ?_ _
  have offsetRead : offset.getInt64 = .ok start := offsetRead
  have sizeRead : size.getUInt64 = .ok length := sizeRead
  simp only [chunkOf, named, started, sized, bind, Except.bind, offsetRead, sizeRead]
  rfl

/-- The file that an `upload_start` request names. -/
def uploadOf (j : Value) : Reads (Service.Bytes × Int64 × Service.Bytes) := do
  let filename ← j.index "filename"
  let filesize ← j.index "filesize"
  let md5 ← j.index "md5"
  let filename ← filename.getString
  let filesize ← filesize.getLongLong
  let md5 ← md5.getString
  return (filename, .ofInt filesize, md5)

theorem isolated_uploadStart
    (same : ∀ filename filesize md5, uploadOf (request.getJson library) =
        .ok (filename, filesize, md5) →
      ∀ outcomes, arrives (deliveries.tail.headD default) = some outcomes →
      Service.Inserts world userId filename filesize md5 outcomes →
      Service.nextId? world = Service.nextId? other ∧
        world.files (Service.newRow userId filename filesize md5 outcomes).filepath =
          other.files (Service.newRow userId filename filesize md5 outcomes).filepath) :
    Isolated library accounts userId (Gateway.uploadStart library request)
      (deliveries, world) (deliveries, other) := by
  refine isolated_authenticated agree bounded sent ?_
  refine isolated_lift agree fun filename named => ?_
  refine isolated_lift agree fun filesize sized => ?_
  refine isolated_lift agree fun md5 summed => ?_
  refine isolated_rpc ?_ fun r _ _ _ agreeAfter => isolated_done agreeAfter
  refine callRpc_matches agree fun outcomes args arrived json => ?_
  obtain rfl := requestJson_object json
  refine serve_matches rfl rfl (uploadStart_matches agree (congrArg Except.ok bounded) ?_)
  intro name size sum nameRead sizeRead sumRead
  refine same name _ sum ?_ outcomes arrived
  have nameRead : filename.getString = .ok name := nameRead
  have sizeRead : filesize.getLongLong = .ok size := sizeRead
  have sumRead : md5.getString = .ok sum := sumRead
  simp only [uploadOf, named, sized, summed, bind, Except.bind, nameRead, sizeRead, sumRead]
  rfl

omit agree sent in
theorem prepared_has {delivery : Delivery} {fileId : Value} {offset size : Int} {r filepath : Value}
    {after : World}
    (prepared : callRpc library accounts delivery ⟨.fileService, "PrepareUploadChunk", .object [
      ("file_id", fileId), ("offset", .number offset), ("size", .number size),
      ("user_id", .number userId)], []⟩ world = (.ok r, after))
    (named : r.atKey "filepath" = .ok filepath) :
    ∃ id path, filepath = .string path ∧ Has userId id path after := by
  have pathless : ∀ code msg : Value,
      (Value.object [("code", code), ("msg", msg)]).atKey "filepath" ≠ .ok filepath :=
    fun _ _ read => by cases read
  rcases callRpc_ok prepared with ⟨code, msg, rfl⟩ | ⟨outcomes, args, json, served⟩
  · exact absurd named (pathless code msg)
  · obtain rfl := requestJson_object json
    rcases serve_ok rfl served with performed | ⟨code, msg, rfl⟩
    · have mine : int64At (.object [("method", .string (text "PrepareUploadChunk")),
          ("file_id", fileId), ("offset", .number offset), ("size", .number size),
          ("user_id", .number userId)]) "user_id" = .ok userId := congrArg Except.ok bounded
      rcases prepareUploadChunk_ok mine performed with rfl | ⟨id, info, rfl, has⟩
      · exact absurd named (pathless _ _)
      · exact ⟨id, info.filepath, (Except.ok.inj named).symm, has⟩
    · exact absurd named (pathless code msg)

theorem isolated_uploadData :
    Isolated library accounts userId (Gateway.uploadData library request)
      (deliveries, world) (deliveries, other) := by
  refine isolated_authenticated agree bounded sent ?_
  refine isolated_lift agree fun offset started => ?_
  refine isolated_lift agree fun fileId _ => ?_
  refine isolated_rpc ?_ ?_
  · refine callRpc_matches agree fun outcomes args _ json => ?_
    obtain rfl := requestJson_object json
    exact serve_matches rfl rfl (prepareUploadChunk_matches agree (congrArg Except.ok bounded))
  intro prepared after after' returned agreeAfter
  refine isolated_lift agreeAfter fun code coded => ?_
  show Isolated _ _ _ (if _ then _ else _) _ _
  split
  · exact isolated_lift agreeAfter fun msg _ => isolated_done agreeAfter
  next accepted =>
  obtain rfl := not_not.mp accepted
  refine isolated_lift agreeAfter fun uploadSize _ => ?_
  show Isolated _ _ _ (if _ then _ else _) _ _
  split
  · exact isolated_lift agreeAfter fun uploadSize _ => isolated_done agreeAfter
  refine isolated_lift agreeAfter fun filepath named => ?_
  obtain ⟨id, path, rfl, has⟩ := prepared_has bounded returned named
  refine isolated_rpc ?_ ?_
  · refine callRpc_matches agreeAfter fun outcomes args _ json => ?_
    obtain rfl := requestJson_object json
    exact serve_matches rfl rfl (writeChunk_matches agreeAfter has rfl)
  intro written stored stored' _ agreeStored
  refine isolated_lift agreeStored fun code _ => ?_
  extract_lets confirm
  have confirming : ∀ count, Isolated library accounts userId (confirm count)
      (deliveries.tail.tail.tail, stored) (deliveries.tail.tail.tail, stored') := by
    intro count
    show Isolated _ _ _ (if _ then _ else _) _ _
    split
    · exact isolated_lift agreeStored fun msg _ => isolated_done agreeStored
    refine isolated_rpc ?_ ?_
    · refine callRpc_matches agreeStored fun outcomes args _ json => ?_
      obtain rfl := requestJson_object json
      exact serve_matches rfl rfl
        (confirmUploadChunk_matches agreeStored (congrArg Except.ok bounded))
    intro confirmed last last' _ agreeLast
    refine isolated_lift agreeLast fun code _ => ?_
    show Isolated _ _ _ (if _ then _ else _) _ _
    split
    · exact isolated_lift agreeLast fun msg _ => isolated_done agreeLast
    · exact isolated_lift agreeLast fun uploadSize _ => isolated_done agreeLast
  split
  · exact confirming (-1)
  · exact isolated_lift agreeStored fun count _ => confirming count

end Authenticated

end Handlers

section Runs

variable (library : Library) (accounts : Accounts) (userId : Int)

/-- `ReadChunk` finds bytes in the range. -/
def Within (content : Service.Bytes) (offset : Int64) (size : UInt64) : Prop :=
  ¬(offset < 0 ∨ .ofNat content.length - offset ≤ 0) ∧ size ≠ 0

/-- The record that a `download` names and the bytes that a `download_chunk` names
are the user's. -/
structure Own (request : Message) (world : World) : Prop where
  record : request.getCmd library = text "download" →
    ∀ fileId info, recordOf (request.getJson library) = .ok fileId →
      world.fileInfo.get? fileId = some info → info.userId = userId
  chunk : request.getCmd library = text "download_chunk" →
    ∀ filepath offset size content, chunkOf (request.getJson library) = .ok (filepath, offset, size) →
      filepath ≠ [] → world.files filepath = some content → Within content offset size →
      ∃ fileId, Has userId fileId filepath world

/-- A row that an `upload_start` makes gets one id in both worlds, and a path where
both have the same file. -/
def SameRow (deliveries : List Delivery) (request : Message) (world other : World) : Prop :=
  request.getCmd library = text "upload_start" →
    ∀ filename filesize md5, uploadOf (request.getJson library) = .ok (filename, filesize, md5) →
      ∀ outcomes, arrives (deliveries.tail.headD default) = some outcomes →
        Service.Inserts world userId filename filesize md5 outcomes →
          Service.nextId? world = Service.nextId? other ∧
            world.files (Service.newRow userId filename filesize md5 outcomes).filepath =
              other.files (Service.newRow userId filename filesize md5 outcomes).filepath

def responses : World → List (List Delivery × Message) → List (Reads (Response library))
  | _, [] => []
  | world, (deliveries, request) :: rest =>
      let (response, world) := respond library accounts deliveries world request
      response :: responses world rest

/-- Requests that name nothing of somebody else in the worlds that they meet. -/
def OwnRun : World → World → List (List Delivery × Message) → Prop
  | _, _, [] => True
  | world, other, (deliveries, request) :: rest =>
      (Own library userId request world ∧ Own library userId request other ∧
        SameRow library userId deliveries request world other) ∧
      OwnRun (respond library accounts deliveries world request).2
        (respond library accounts deliveries other request).2 rest

variable {library accounts userId} {world other : World} {request : Message}

theorem readChunk_nothing {filepath : Service.Bytes} {offset : Int64} {size : UInt64} {opens : Bool}
    (nothing : filepath ≠ [] → ∀ content, world.files filepath = some content →
      ¬Within content offset size) :
    world.readChunk opens filepath offset size = .ok [] := by
  unfold World.readChunk
  split
  · rfl
  next content found =>
    split at found
    next named =>
      have outside := nothing named.2 content found
      show (if offset < 0 ∨ .ofNat content.length - offset ≤ 0 then _ else _) = _
      split
      · rfl
      next inside =>
        obtain rfl : size = 0 := by
          by_contra something
          exact outside ⟨inside, something⟩
        have more : ¬.ofNat content.length - offset < (0 : UInt64).toInt64 :=
          fun less => inside (.inr (Int64.le_of_lt less))
        simp only [if_neg more]
        rfl
    · cases found

theorem Own.readChunk_eq (agree : Agree userId world other) (own : Own library userId request world)
    (own' : Own library userId request other) (asked : request.getCmd library = text "download_chunk")
    {filepath : Service.Bytes} {offset : Int64} {size : UInt64}
    (named : chunkOf (request.getJson library) = .ok (filepath, offset, size)) (opens : Bool) :
    world.readChunk opens filepath offset size = other.readChunk opens filepath offset size := by
  by_cases mine : ∃ fileId, Has userId fileId filepath world
  · obtain ⟨fileId, info, found, owned, rfl⟩ := mine
    simp only [World.readChunk, agree.files fileId info found owned]
  · rw [readChunk_nothing, readChunk_nothing]
    · intro nonempty content found within
      obtain ⟨fileId, info, found', owned, path⟩ :=
        own'.chunk asked filepath offset size content named nonempty found within
      exact mine ⟨fileId, info, agree.symm.found found' owned, owned, path⟩
    · intro nonempty content found within
      exact mine (own.chunk asked filepath offset size content named nonempty found within)

theorem Own.record_eq (agree : Agree userId world other) (own : Own library userId request world)
    (own' : Own library userId request other) (asked : request.getCmd library = text "download")
    {fileId : Int} (named : recordOf (request.getJson library) = .ok fileId) :
    world.fileInfo.get? fileId = other.fileInfo.get? fileId := by
  cases found : world.fileInfo.get? fileId with
  | some info => exact (agree.found found (own.record asked fileId info named found)).symm
  | none =>
      cases found' : other.fileInfo.get? fileId with
      | none => rfl
      | some info =>
          have mine := own'.record asked fileId info named found'
          rw [agree.symm.found found' mine] at found
          cases found

theorem respond_agrees (bounded : userId.bmod (2 ^ 64) = userId) (agree : Agree userId world other)
    (sent : Sent library accounts userId request) {deliveries : List Delivery}
    (own : Own library userId request world) (own' : Own library userId request other)
    (row : SameRow library userId deliveries request world other) :
    (respond library accounts deliveries world request).1 =
        (respond library accounts deliveries other request).1 ∧
      Agree userId (respond library accounts deliveries world request).2
        (respond library accounts deliveries other request).2 := by
  have isolated : Isolated library accounts userId (route library (Gateway.handlers library) request)
      (deliveries, world) (deliveries, other) := by
    apply @route_induction _ _ _ _ _ fun program =>
      Isolated library accounts userId program (deliveries, world) (deliveries, other)
    · exact isolated_done agree
    · simp only [Gateway.handlers, List.forall_mem_cons]
      refine ⟨?_, ?_, ?_, ?_, ?_, ?_, ?_, ?_, ?_, ?_⟩
      · exact fun _ => isolated_entrance agree fun _ _ => ⟨_, fun _ => rfl⟩
      · exact fun _ => isolated_entrance agree fun _ _ => ⟨_, fun _ => rfl⟩
      · exact fun asked => isolated_uploadStart agree bounded sent (row asked)
      · exact fun _ => isolated_uploadData agree bounded sent
      · exact fun _ => isolated_uploadFinalize agree bounded sent
      · exact fun asked => isolated_download agree bounded sent fun _ =>
          own.record_eq agree own' asked
      · exact fun asked => isolated_downloadChunk agree bounded sent fun _ _ _ =>
          own.readChunk_eq agree own' asked
      · exact fun _ => isolated_list agree bounded sent
      · exact fun _ => isolated_delete agree bounded sent
      · simp
  obtain ⟨result, last, last', ran, ran', alike⟩ := isolated
  simp only [respond, ran, ran']
  exact ⟨trivial, alike.2⟩

end Runs

end Services

section Reading

open Services (responses Sent OwnRun)

/-- Users 2 and 1 upload a file each. -/
def shared : World :=
  let first := (Service.execute [] (Service.emptyWorld id)
    (Service.FileService.uploadStart 2 [98] 1 [1])).2
  (Service.execute [] first (Service.FileService.uploadStart 1 [97] 1 [1])).2

def alone : World :=
  { shared with fileInfo := shared.fileInfo.filter fun _ info => info.userId = 1 }

theorem shared_alone : Agree 1 shared alone where
  collate := rfl
  rows fileId info owned := by
    rw [alone, Relational.Table.get?_filter, Option.filter_eq_some_iff]
    simp [owned]
  files fileId info found owned := rfl

def downloadRequest (fileId : Int) : Value :=
  .object [("cmd", .string (text "download")), ("file_id", .number fileId),
    ("token", .string [116])]

def downloadMessage (fileId : Int) : Message := ⟨{}, (downloadRequest fileId).print, []⟩

def readers : Library := sampleLibrary [downloadRequest 1, downloadRequest 2]

theorem getJson_download (fileId : Int) (listed : fileId = 1 ∨ fileId = 2) :
    (downloadMessage fileId).getJson readers = downloadRequest fileId := by
  rcases listed with rfl | rfl <;> rfl

theorem sent_download {fileId : Int} (listed : fileId = 1 ∨ fileId = 2) :
    Sent readers sampleAccounts 1 (downloadMessage fileId) := by
  intro token named _
  rw [getJson_download fileId listed] at named
  obtain rfl : [116] = token := Except.ok.inj named
  rfl

/-- User 1 asks for his record. -/
theorem ownRun_download : OwnRun readers sampleAccounts 1 shared alone [([], downloadMessage 2)] := by
  have json := getJson_download 2 (.inr rfl)
  have asked : (downloadMessage 2).getCmd readers = text "download" := by
    rw [Message.getCmd, json]
    rfl
  have own : ∀ world : World, (world.fileInfo.get? 2).map (·.userId) = some 1 →
      Services.Own readers 1 (downloadMessage 2) world := by
    intro world mine
    constructor
    · intro _ fileId info named found
      rw [json] at named
      obtain rfl : 2 = fileId := Except.ok.inj named
      rw [found] at mine
      exact Option.some.inj mine
    · intro chunk
      rw [asked] at chunk
      exact absurd chunk (by decide)
  refine ⟨⟨own shared (by decide +kernel), own alone (by decide +kernel), ?_⟩, trivial⟩
  intro started
  rw [asked] at started
  exact absurd started (by decide)

end Reading

end FileServer.Routing
