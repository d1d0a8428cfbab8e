import FileServer.Service.Paths
import FileServer.Service.Reading

/-!
# Resumed uploads

A client uploads one file in sessions that may end anywhere, also inside a
request.  The disk holds a prefix of the content that is at least as long as the
progress, and each session begins at the progress, as long as the collation does
not take another file for the client's.
-/

namespace FileServer.Service

open FileServer.Encoding FileServer.Json FileServer.Relational FileServer.Sequence
  FileServer.Transition

structure Upload where
  userId : Int
  filename : Bytes
  content : Bytes
  filesize : Int64
  md5 : Bytes
  something : content ≠ []
  measured : filesize.toInt = content.length

/-- The client's next request. -/
inductive ClientStep where
  | start
  /-- A chunk of the size. -/
  | send (size : Nat)
  | finalize
  deriving DecidableEq

def respond (session : Option (Int × Int64)) (step : ClientStep) (reply : Reply) :
    Option (Int × Int64) :=
  if reply.code ≠ 0 then none
  else
    match step with
    | .start => some (reply.fileId, reply.offset)
    | .send size => session.map fun (fileId, offset) => (fileId, offset + .ofNat size)
    | .finalize => none

namespace Upload

variable (upload : Upload)

/-- The request of `UploadFile` in a session, given by its `file_id` and offset. -/
def request : Option (Int × Int64) → ClientStep → Option Request
  | none, .start =>
      some (.uploadStart upload.userId upload.filename upload.filesize upload.md5)
  | some (fileId, offset), .send size =>
      if offset < upload.filesize ∧ 0 < size ∧ offset.toInt + size ≤ upload.filesize.toInt then
        some (.uploadData fileId upload.userId
          ((upload.content.drop offset.toInt.toNat).take size) offset)
      else none
  | some (fileId, offset), .finalize =>
      if upload.filesize ≤ offset then some (.uploadFinalize fileId upload.userId) else none
  | _, _ => none

def Owns (info : FileInfo) : Prop :=
  info.userId = upload.userId ∧ info.filename = sanitizeFilename upload.filename ∧
    info.filesize = upload.filesize ∧ info.md5 = upload.md5

instance (info : FileInfo) : Decidable (upload.Owns info) :=
  inferInstanceAs (Decidable (_ ∧ _))

def Foreign (world : World) (fileId : Int) : Prop :=
  ∀ info ∈ world.fileInfo.get? fileId, ¬upload.Owns info

def Elsewhere (world : World) : Request → Prop
  | .uploadStart userId filename filesize md5 =>
      ¬(userId = upload.userId ∧ sanitizeFilename filename = sanitizeFilename upload.filename ∧
        filesize = upload.filesize ∧ md5 = upload.md5)
  | .uploadData fileId userId _ _ | .uploadFinalize fileId userId | .delete fileId userId =>
      userId ≠ upload.userId ∨ upload.Foreign world fileId
  | _ => False

instance (world : World) (request : Request) : Decidable (upload.Elsewhere world request) := by
  unfold Elsewhere Foreign
  cases request <;> infer_instance

end Upload

/-- What a request leaves that is cut off after so many calls. -/
def interrupt {α : Type} : Nat → List Outcome → World → Handler α → World
  | 0, _, world, _ => world
  | _ + 1, _, world, .done _ => world
  | calls + 1, outcomes, world, .call call next =>
      let (answer, world) := serve (outcomes.headD default) call world
      interrupt calls outcomes.tail world (next answer)

structure ResumeState where
  world : World
  session : Option (Int × Int64)

inductive ResumeAction where
  /-- The client's next request is answered. -/
  | ask (step : ClientStep) (outcomes : List Outcome)
  /-- It is cut off. -/
  | cut (step : ClientStep) (calls : Nat) (outcomes : List Outcome)
  | stop
  | other (request : Request) (outcomes : List Outcome)
  deriving DecidableEq

def Upload.step (upload : Upload) (state : ResumeState) : ResumeAction → Option ResumeState
  | .ask step outcomes =>
      (upload.request state.session step).map fun request =>
        let (result, world) := execute outcomes state.world (handler request)
        ⟨world, respond state.session step ((processes id isMethod).reply result)⟩
  | .cut step calls outcomes =>
      (upload.request state.session step).map fun request =>
        ⟨interrupt calls outcomes state.world (handler request), none⟩
  | .stop => some { state with session := none }
  | .other request outcomes =>
      if upload.Elsewhere state.world request then
        some { state with world := (execute outcomes state.world (handler request)).2 }
      else none

/-- The sessions of a client, among other requests. -/
def Upload.sessions (upload : Upload) (collate : Bytes → Bytes) :
    System ResumeState ResumeAction where
  initial := ⟨emptyWorld collate, none⟩
  step := upload.step

/-- An existing file is opened for the client's chunk, or not emptied either. -/
def Outcome.Spares (outcome : Outcome) : Prop := outcome.opens = true ∨ outcome.creates = false

/-- No request of the client empties a file. -/
def ResumeAction.Opens : ResumeAction → Prop
  | .ask _ outcomes | .cut _ _ outcomes => ∀ outcome ∈ outcomes, outcome.Spares
  | _ => True

/-- The session that the client starts finds a record of its file, or none. -/
def Upload.FindsOwn (upload : Upload) (event : Event ResumeState ResumeAction) : Prop :=
  match event.action with
  | .ask .start outcomes =>
      (outcomes.headD default).succeeds = true → ∀ row ∈ event.before.world.incomplete upload.userId
        (sanitizeFilename upload.filename) upload.filesize upload.md5, upload.Owns row.2
  | _ => True

instance (upload : Upload) (event : Event ResumeState ResumeAction) :
    Decidable (upload.FindsOwn event) := by
  unfold Upload.FindsOwn
  split <;> infer_instance

/-- No other record has the path of a record of the file. -/
def Upload.Unshared (upload : Upload) (world : World) : Prop :=
  ∀ fileId info other info', world.fileInfo.get? fileId = some info → upload.Owns info →
    world.fileInfo.get? other = some info' → info'.filepath = info.filepath → other = fileId

/-- Read a file by `DownloadChunk`, each time from the end of what was read. -/
def readBack (world : World) (fileId userId : Int) (filesize chunkSize : Int64) :
    Nat → Int64 → Option Bytes
  | 0, offset => if offset < filesize then none else some []
  | fuel + 1, offset =>
      if offset < filesize then
        let size := (min chunkSize (filesize - offset)).toUInt64
        match consult world [] (FileService.downloadChunk fileId userId offset size) with
        | .ok data =>
            (readBack world fileId userId filesize chunkSize fuel
              (offset + .ofNat data.length)).map (data ++ ·)
        | .error _ => none
      else some []

section Cuts

/-- Nothing is done. -/
def failed : Outcome := { succeeds := false, creates := false, seeks := false }

theorem serve_failed (call : Call) (world : World) : (serve failed call world).2 = world := by
  cases call with
  | insert file =>
      simp only [serve]
      split <;> rfl
  | writeChunk filepath data offset =>
      simp only [serve, World.writeChunk, World.openChunk]
      cases stored : world.files filepath <;> simp [failed, stored]
  | extendUpload fileId userId offset finish =>
      simp only [serve]
      rw [if_neg (by simp [failed])]
  | deleteFile filepath =>
      simp only [serve]
      rw [if_neg (by simp [failed])]
  | updateUploadSize | updateStatus | findById | findIncompleteByKey | localtime | createUserDir
    | getFileSize => rfl

/-- What is cut off could also have failed from there on. -/
theorem exists_execute_eq_interrupt {α : Type} (program : Handler α) (calls : Nat)
    (outcomes : List Outcome) (world : World)
    (opens : ∀ outcome ∈ outcomes, outcome.Spares) :
    ∃ others, (∀ outcome ∈ others, outcome.Spares) ∧
      (execute others world program).2 = interrupt calls outcomes world program := by
  induction program generalizing calls outcomes world with
  | done result => exact ⟨[], by simp, by cases calls <;> rfl⟩
  | call call next inductionHypothesis =>
      cases calls with
      | zero =>
          obtain ⟨others, opened, same⟩ := inductionHypothesis (serve failed call world).1 0
            outcomes world opens
          refine ⟨failed :: others, List.forall_mem_cons.mpr ⟨.inr rfl, opened⟩, ?_⟩
          show (execute others (serve failed call world).2 (next (serve failed call world).1)).2 = world
          rw [serve_failed, same]
          rfl
      | succ calls =>
          obtain ⟨others, opened, same⟩ := inductionHypothesis
            (serve (outcomes.headD default) call world).1 calls outcomes.tail
            (serve (outcomes.headD default) call world).2
            fun outcome older => opens outcome (List.mem_of_mem_tail older)
          refine ⟨outcomes.headD default :: others, List.forall_mem_cons.mpr ⟨?_, opened⟩, same⟩
          cases outcomes with
          | nil => exact .inl rfl
          | cons first rest => exact opens first List.mem_cons_self

end Cuts

/-- A record of the file: what is on disk begins the content and reaches the
progress. -/
structure Resumable (upload : Upload) (world : World) (info : FileInfo) : Prop where
  named : info.filepath ≠ []
  kept : info.status ≠ .kDeleted
  nonneg : 0 ≤ info.uploadSize.toInt
  reached : info.uploadSize.toInt ≤ sizeOf world info.filepath
  stored : (world.files info.filepath).getD [] <+: upload.content

structure Consistent (upload : Upload) (world : World) : Prop where
  given : IdsGiven world
  paths : ∀ filepath content, world.files filepath = some content →
    ∃ fileId info, world.fileInfo.get? fileId = some info ∧ info.filepath = filepath
  sized : ∀ fileId info, world.fileInfo.get? fileId = some info → 0 ≤ info.filesize.toInt
  rows : ∀ fileId info, world.fileInfo.get? fileId = some info → upload.Owns info →
    Resumable upload world info

/-- The records of the file stay, and their files do not shrink. -/
def Advances (upload : Upload) (world next : World) : Prop :=
  ∀ fileId info, world.fileInfo.get? fileId = some info → upload.Owns info →
    ∃ info', next.fileInfo.get? fileId = some info' ∧ upload.Owns info' ∧
      info'.filepath = info.filepath ∧ sizeOf world info.filepath ≤ sizeOf next info.filepath

section Worlds

variable {upload : Upload} {world next : World} {outcomes : List Outcome} {fileId userId : Int}
  {info info' : FileInfo}

theorem Advances.refl (upload : Upload) (world : World) : Advances upload world world :=
  fun _ info found owns => ⟨info, found, owns, rfl, le_refl _⟩

theorem Consistent.update (consistent : Consistent upload world) (unshared : upload.Unshared world)
    (given : IdsGiven next) (found : world.fileInfo.get? fileId = some info)
    (row : next.fileInfo.get? fileId = some info') (path : info'.filepath = info.filepath)
    (size : info'.filesize = info.filesize) (owner : upload.Owns info' ↔ upload.Owns info)
    (others : ∀ other, other ≠ fileId → next.fileInfo.get? other = world.fileInfo.get? other)
    (files : ∀ filepath, filepath ≠ info.filepath → next.files filepath = world.files filepath)
    (changed : upload.Owns info → Resumable upload next info' ∧
      sizeOf world info.filepath ≤ sizeOf next info.filepath) :
    Consistent upload next ∧ Advances upload world next := by
  have elsewhere : ∀ other info'', other ≠ fileId → world.fileInfo.get? other = some info'' →
      upload.Owns info'' → next.files info''.filepath = world.files info''.filepath := by
    intro other info'' different found' owns
    apply files
    intro shared
    exact different (unshared other info'' fileId info found' owns found shared.symm).symm
  have rows : ∀ other info'', next.fileInfo.get? other = some info'' →
      other = fileId ∧ info'' = info' ∨
        other ≠ fileId ∧ world.fileInfo.get? other = some info'' := by
    intro other info'' found'
    by_cases same : other = fileId
    · subst same
      exact .inl ⟨rfl, (Option.some.inj (row.symm.trans found')).symm⟩
    · rw [others other same] at found'
      exact .inr ⟨same, found'⟩
  refine ⟨⟨given, ?_, ?_, ?_⟩, ?_⟩
  · intro filepath content stored
    by_cases here : filepath = info.filepath
    · exact ⟨fileId, info', row, path.trans here.symm⟩
    · rw [files filepath here] at stored
      obtain ⟨other, info'', found', rfl⟩ := consistent.paths filepath content stored
      by_cases same : other = fileId
      · subst same
        exact absurd (congrArg FileInfo.filepath (Option.some.inj (found'.symm.trans found))) here
      · exact ⟨other, info'', by rw [others other same, found'], rfl⟩
  · intro other info'' found'
    rcases rows other info'' found' with ⟨rfl, rfl⟩ | ⟨_, older⟩
    · rw [size]
      exact consistent.sized _ info found
    · exact consistent.sized other info'' older
  · intro other info'' found' owns
    rcases rows other info'' found' with ⟨rfl, rfl⟩ | ⟨different, older⟩
    · exact (changed (owner.mp owns)).1
    · have same := elsewhere other info'' different older owns
      have resumable := consistent.rows other info'' older owns
      refine ⟨resumable.named, resumable.kept, resumable.nonneg, ?_, ?_⟩
      · rw [sizeOf, same]
        exact resumable.reached
      · rw [same]
        exact resumable.stored
  · intro other info'' found' owns
    by_cases same : other = fileId
    · subst same
      obtain rfl := Option.some.inj (found.symm.trans found')
      exact ⟨info', row, owner.mpr owns, path, (changed owns).2⟩
    · exact ⟨info'', by rw [others other same, found'], owns, rfl,
        by rw [sizeOf, sizeOf, elsewhere other info'' same found' owns]⟩

theorem given_execute {α : Type} (program : Handler α) (given : IdsGiven world)
    (ran : (execute outcomes world program).2 = next) : IdsGiven next := by
  rw [← ran]
  exact execute_keeps IdsGiven (fun outcome call world => idsGiven_serve outcome call) _ _ given

theorem generateFilepath_ne_nil (userId : Int) (filename : Bytes) (tm : Tm) :
    generateFilepath userId filename tm ≠ [] := by
  simp [generateFilepath]

theorem Consistent.start (consistent : Consistent upload world) (unshared : upload.Unshared next)
    {filename : Bytes} {filesize : Int64} {md5 : Bytes}
    (ran : (execute outcomes world
      (FileService.uploadStart userId filename filesize md5)).2 = next) :
    Consistent upload next ∧ Advances upload world next := by
  have given := given_execute _ consistent.given ran
  rcases uploadStart_exact consistent.given ran with ⟨inserts, inserted⟩ | ⟨_, rfl⟩
  · obtain ⟨rows, files⟩ := insertRow_rows inserted
    have older : ∀ fileId info, world.fileInfo.get? fileId = some info →
        next.fileInfo.get? fileId = some info := by
      intro fileId info found
      rw [rows, if_neg]
      · exact found
      · have bound := consistent.given fileId info found
        omega
    have sized : 0 ≤ filesize.toInt := by
      by_contra negative
      exact inserts.1 (.inr (Int64.le_iff_toInt_le.mpr (Int.le_of_lt (Int.not_le.mp negative))))
    refine ⟨⟨given, ?_, ?_, ?_⟩, ?_⟩
    · intro filepath content stored
      rw [files] at stored
      obtain ⟨fileId, info, found, path⟩ := consistent.paths filepath content stored
      exact ⟨fileId, info, older fileId info found, path⟩
    · intro fileId info found
      rw [rows] at found
      split at found
      · obtain rfl := Option.some.inj found
        exact sized
      · exact consistent.sized fileId info found
    · intro fileId info found owns
      have found' := found
      rw [rows] at found'
      split at found'
      next here =>
        -- a file at the new path would have an older record
        have unused : world.files info.filepath = none := by
          by_contra present
          obtain ⟨content, stored⟩ := Option.ne_none_iff_exists'.mp present
          obtain ⟨other, info', earlier, path⟩ := consistent.paths _ content stored
          have same := unshared fileId info other info' found owns (older other info' earlier) path
          have bound := consistent.given other info' earlier
          omega
        obtain rfl := Option.some.inj found'
        refine ⟨generateFilepath_ne_nil _ _ _, by simp [newRow], le_refl 0, Int.natCast_nonneg _, ?_⟩
        rw [files, unused]
        exact List.nil_prefix
      · have resumable := consistent.rows fileId info found' owns
        refine ⟨resumable.named, resumable.kept, resumable.nonneg, ?_, ?_⟩
        · rw [sizeOf, files]
          exact resumable.reached
        · rw [files]
          exact resumable.stored
    · intro fileId info found owns
      exact ⟨info, older fileId info found, owns, rfl, by rw [sizeOf, sizeOf, files]⟩
  · exact ⟨consistent, .refl upload _⟩

theorem chunk_grows {outcome : Outcome} {filepath data content : Bytes} {offset written : Int64}
    (result : Written world outcome filepath data offset (written, next))
    (opens : outcome.Spares) (reached : offset.toInt ≤ sizeOf world filepath)
    (part : data <+: content.drop offset.toInt.toNat)
    (stored : (world.files filepath).getD [] <+: content) :
    sizeOf world filepath ≤ sizeOf next filepath ∧
      (next.files filepath).getD [] <+: content ∧
      (0 ≤ written.toInt → offset.toInt + written.toInt ≤ sizeOf next filepath) := by
  have contents : ∀ start, Opened world outcome filepath start →
      (world.files filepath).getD [] = start := by
    rintro start (found | ⟨rfl, creates, missing | shut⟩)
    · rw [found]
      rfl
    · rw [missing]
      rfl
    · rcases opens with opens | kept
      · rw [opens] at shut
        cases shut
      · rw [creates] at kept
        cases kept
  have placed : ∀ start data', Opened world outcome filepath start → data' <+: data →
      0 ≤ offset.toInt →
      next.files filepath = some (overlay 0 start offset.toInt.toNat data') →
      sizeOf world filepath ≤ sizeOf next filepath ∧
        (next.files filepath).getD [] <+: content := by
    intro start data' opened shorter sought after
    have before := contents start opened
    rw [sizeOf, before] at reached
    rw [sizeOf, sizeOf, before, after]
    refine ⟨length_le_overlay _ _ _ _, ?_⟩
    rw [before] at stored
    exact overlay_prefix 0 start _ stored (by omega) (shorter.trans part)
  cases result with
  | unopened => exact ⟨le_refl _, stored, fun accepted => absurd accepted (by decide)⟩
  | opened start opened =>
      have before := contents start opened
      have after : (world.setFile filepath (some start)).files filepath = some start := by
        rw [files_setFile, if_pos rfl]
      refine ⟨?_, ?_, fun accepted => absurd accepted (by decide)⟩
      · rw [sizeOf, sizeOf, before, after]
        rfl
      · rw [after, Option.getD_some, ← before]
        exact stored
  | part start opened ready sought =>
      obtain ⟨longer, begins⟩ := placed start _ opened (outcome.put_begins data offset) sought
        (by rw [files_setFile, if_pos rfl])
      exact ⟨longer, begins, fun accepted => absurd accepted (by decide)⟩
  | whole start opened ready sought fits =>
      have after : (world.setFile filepath (some (overlay 0 start offset.toInt.toNat
          data))).files filepath = some (overlay 0 start offset.toInt.toNat data) := by
        rw [files_setFile, if_pos rfl]
      obtain ⟨longer, begins⟩ := placed start data opened (List.prefix_refl data) sought after
      refine ⟨longer, begins, fun _ => ?_⟩
      rw [Int64.toInt_ofNat_of_lt (by omega)]
      by_cases something : data = []
      · have none : data.length = 0 := by rw [something, List.length_nil]
        omega
      · rw [sizeOf, after, Option.getD_some, length_overlay _ _ _ something]
        omega

theorem Consistent.write (consistent : Consistent upload world) (unshared : upload.Unshared world)
    {data : Bytes} {offset : Int64}
    (fits : ∀ info, world.fileInfo.get? fileId = some info → upload.Owns info →
      (second outcomes).Spares ∧ offset.toInt ≤ sizeOf world info.filepath ∧
        data <+: upload.content.drop offset.toInt.toNat)
    (ran : (execute outcomes world (FileService.uploadData fileId userId data offset)).2 = next) :
    Consistent upload next ∧ Advances upload world next := by
  have given := given_execute _ consistent.given ran
  rcases uploadData_effect ran with
    rfl | ⟨_, info, written, chunked, found, _, uploading, chunk, result⟩
  · exact ⟨consistent, .refl upload _⟩
  have result' := writeChunk_written world (second outcomes) info.filepath data offset
  have rows : chunked.fileInfo = world.fileInfo := by
    rw [← fileInfo_writeChunk world (second outcomes) info.filepath data offset, chunk]
  have elsewhere : ∀ path, path ≠ info.filepath → chunked.files path = world.files path := by
    intro path away
    have same := files_writeChunk_of_ne world (second outcomes) data offset away
    rwa [chunk] at same
  rw [chunk] at result'
  have grows : upload.Owns info → sizeOf world info.filepath ≤ sizeOf chunked info.filepath ∧
      (chunked.files info.filepath).getD [] <+: upload.content ∧
      (0 ≤ written.toInt → offset.toInt + written.toInt ≤ sizeOf chunked info.filepath) := by
    intro owns
    obtain ⟨opens, reached, part⟩ := fits info found owns
    have stored := (consistent.rows fileId info found owns).stored
    exact chunk_grows result' opens reached part stored
  rcases result with rfl | ⟨accepted, exactly, rfl⟩
  · apply consistent.update unshared given found (by rw [rows]; exact found) rfl rfl Iff.rfl
    · exact fun other _ => by rw [rows]
    · exact elsewhere
    · intro owns
      obtain ⟨longer, begins, _⟩ := grows owns
      have resumable := consistent.rows fileId info found owns
      exact ⟨⟨resumable.named, resumable.kept, resumable.nonneg,
        resumable.reached.trans (Int.ofNat_le.mpr longer), begins⟩, longer⟩
  · have raised := max_toInt info.uploadSize (offset + written)
    rw [exactly] at raised
    apply consistent.update unshared given found (get?_modifyRow_self (by rw [rows]; exact found))
      rfl rfl Iff.rfl
    · exact fun other different => by rw [get?_modifyRow, if_neg different, rows]
    · exact elsewhere
    · intro owns
      obtain ⟨longer, begins, ends⟩ := grows owns
      have resumable := consistent.rows fileId info found owns
      refine ⟨⟨resumable.named, resumable.kept, ?_, ?_, begins⟩, longer⟩
      · show 0 ≤ (max info.uploadSize (offset + written)).toInt
        rw [raised]
        exact le_max_of_le_left resumable.nonneg
      · show (max info.uploadSize (offset + written)).toInt ≤ _
        rw [raised]
        exact max_le (resumable.reached.trans (Int.ofNat_le.mpr longer)) (ends accepted)

/-- A record of the file is completed only when all of it is on disk. -/
theorem Consistent.finalize (consistent : Consistent upload world)
    (unshared : upload.Unshared world)
    (ran : (execute outcomes world (FileService.uploadFinalize fileId userId)).2 = next) :
    Consistent upload next ∧ Advances upload world next := by
  have given := given_execute _ consistent.given ran
  rcases uploadFinalize_effect (consistent.sized fileId) ran with
    rfl | ⟨info, content, found, stored, enough, files, others, status, uploadSize, updated,
      statuses, sizes⟩
  · exact ⟨consistent, .refl upload _⟩
  apply consistent.update unshared given found updated rfl rfl Iff.rfl others
  · exact fun filepath _ => by rw [files]
  · intro owns
    have resumable := consistent.rows fileId info found owns
    have begins := resumable.stored
    rw [stored, Option.getD_some] at begins
    have shorter := begins.length_le
    have whole := owns.2.2.1
    have measured := upload.measured
    have top := upload.filesize.toInt_lt
    rw [whole, Int64.toInt_ofNat_of_lt (by omega)] at enough
    have size : sizeOf next info.filepath = content.length := by
      rw [sizeOf, files, stored]
      rfl
    have reached := resumable.reached
    rw [sizeOf, ← files, ← sizeOf, size] at reached
    refine ⟨⟨resumable.named, ?_, ?_, ?_, ?_⟩, by rw [sizeOf, sizeOf, files]⟩
    · rcases statuses with rfl | rfl
      · exact resumable.kept
      · exact fun deleted => by cases deleted
    · rcases sizes with rfl | rfl
      · exact resumable.nonneg
      · exact consistent.sized fileId info found
    · show uploadSize.toInt ≤ sizeOf next info.filepath
      rw [size]
      rcases sizes with rfl | rfl
      · exact reached
      · rw [whole]
        exact enough
    · rw [files]
      exact resumable.stored

theorem Consistent.delete (consistent : Consistent upload world) (unshared : upload.Unshared world)
    (foreign : upload.Foreign world fileId)
    (ran : (execute outcomes world (FileService.delete fileId userId)).2 = next) :
    Consistent upload next ∧ Advances upload world next := by
  have given := given_execute _ consistent.given ran
  rcases delete_effect ran with rfl | ⟨info, marked, found, marks, removes⟩
  · exact ⟨consistent, .refl upload _⟩
  have other : ¬upload.Owns info := foreign info found
  have removed : next.fileInfo = marked.fileInfo ∧
      ∀ filepath, filepath ≠ info.filepath → next.files filepath = marked.files filepath := by
    rcases removes with rfl | ⟨_, rfl⟩
    · exact ⟨rfl, fun _ _ => rfl⟩
    · exact ⟨rfl, fun filepath away => by rw [files_setFile, if_neg away]⟩
  obtain ⟨rows, files⟩ := removed
  rcases marks with ⟨_, rfl⟩ | rfl
  · exact consistent.update unshared given found (by rw [rows]; exact found) rfl rfl Iff.rfl
      (fun _ _ => by rw [rows]) files fun owns => absurd owns other
  · have row := get?_modifyRow_self found (f := fun info => { info with status := .kDeleted })
    rw [← rows] at row
    apply consistent.update unshared given found row rfl rfl Iff.rfl
    · exact fun another different => by rw [rows, get?_modifyRow, if_neg different]
    · exact files
    · exact fun owns => absurd owns other

/-- A record of another user is not touched. -/
theorem execute_refused {α : Type} {next : Option FileInfo → Handler α}
    (found : world.fileInfo.get? fileId = some info)
    (refused : ∀ row outcomes, (row = none ∨ row = some info) →
      (execute outcomes world (next row)).2 = world) :
    (execute outcomes world (ask (.findById fileId) >>= next)).2 = world := by
  rw [execute_ask]
  refine refused _ _ ?_
  simp only [serve]
  split
  · exact .inr found
  · exact .inl rfl

theorem uploadData_refused (found : world.fileInfo.get? fileId = some info)
    (foreign : info.userId ≠ userId) {data : Bytes} {offset : Int64} :
    (execute outcomes world (FileService.uploadData fileId userId data offset)).2 = world := by
  apply execute_refused found
  rintro row outcomes (rfl | rfl)
  · rfl
  · simp only [if_pos foreign]
    rfl

theorem delete_refused (found : world.fileInfo.get? fileId = some info)
    (foreign : info.userId ≠ userId) :
    (execute outcomes world (FileService.delete fileId userId)).2 = world := by
  apply execute_refused found
  rintro row outcomes (rfl | rfl)
  · rfl
  · simp only [if_pos foreign]
    rfl

theorem Upload.foreign_or (upload : Upload) (world : World) (fileId : Int) :
    upload.Foreign world fileId ∨
      ∃ info, world.fileInfo.get? fileId = some info ∧ upload.Owns info := by
  by_contra neither
  rw [not_or] at neither
  exact neither.1 fun info found owns => neither.2 ⟨info, found, owns⟩

theorem Upload.Owns.not_user (owns : upload.Owns info)
    (elsewhere : userId ≠ upload.userId ∨ upload.Foreign world fileId)
    (found : world.fileInfo.get? fileId = some info) : info.userId ≠ userId := by
  rcases elsewhere with another | foreign
  · rw [owns.1]
    exact another.symm
  · exact absurd owns (foreign info found)

theorem Consistent.other (consistent : Consistent upload world) (unshared : upload.Unshared world)
    (unsharedNext : upload.Unshared next) {request : Request}
    (elsewhere : upload.Elsewhere world request)
    (ran : (execute outcomes world (handler request)).2 = next) :
    Consistent upload next ∧ Advances upload world next := by
  cases request with
  | uploadStart userId filename filesize md5 =>
      rw [handler, execute_map] at ran
      exact consistent.start unsharedNext ran
  | uploadData fileId userId data offset =>
      rw [handler, execute_map] at ran
      rcases Upload.foreign_or upload world fileId with foreign | ⟨info, found, owns⟩
      · exact consistent.write unshared (fun info found owns => absurd owns (foreign info found)) ran
      · rw [uploadData_refused found (owns.not_user elsewhere found)] at ran
        exact ran ▸ ⟨consistent, .refl upload world⟩
  | uploadFinalize fileId userId =>
      rw [handler, execute_map] at ran
      exact consistent.finalize unshared ran
  | delete fileId userId =>
      rw [handler, execute_map] at ran
      rcases Upload.foreign_or upload world fileId with foreign | ⟨info, found, owns⟩
      · exact consistent.delete unshared foreign ran
      · rw [delete_refused found (owns.not_user elsewhere found)] at ran
        exact ran ▸ ⟨consistent, .refl upload world⟩
  | prepareUploadChunk | confirmUploadChunk | finalizeUpload | writeChunk => cases elsewhere

end Worlds

section Responses

variable {upload : Upload} {world next : World} {outcomes : List Outcome} {fileId userId : Int}
  {info : FileInfo}

theorem incomplete_found {filename : Bytes} {filesize : Int64} {md5 : Bytes}
    (found : world.incomplete userId filename filesize md5 = some (fileId, info)) :
    world.fileInfo.get? fileId = some info := by
  have listed := List.maxOn?_mem found
  rw [List.mem_filter, Table.mem_rows_iff] at listed
  exact listed.1

theorem insert_answer {outcome : Outcome} {file : FileInfo}
    (positive : 0 < (serve outcome (.insert file) world).1) :
    (serve outcome (.insert file) world).2.fileInfo.get?
      (serve outcome (.insert file) world).1 = some file := by
  simp only [serve] at positive ⊢
  cases created : world.insertRow file with
  | none =>
      simp only [created] at positive
      cases positive
  | some pair =>
      obtain ⟨id, inserted⟩ := pair
      have row := (insertRow_rows created).1 id
      rw [if_pos rfl] at row
      simp only [created] at positive ⊢
      split at positive
      next succeeds =>
        simp only [if_pos succeeds]
        exact row
      · cases positive

theorem uploadStart_answer {filename : Bytes} {filesize : Int64} {md5 : Bytes}
    {result : FileService.UploadStartResult}
    (ran : execute outcomes world (FileService.uploadStart userId filename filesize md5) =
      (.ok result, next)) (accepted : 0 < result.fileId) :
    ∃ info, next.fileInfo.get? result.fileId = some info ∧ result.offset = info.uploadSize ∧
      ((outcomes.headD default).succeeds = true ∧ world.incomplete userId
          (sanitizeFilename filename) filesize md5 = some (result.fileId, info) ∨
        info.userId = userId ∧ info.filename = sanitizeFilename filename ∧
          info.filesize = filesize ∧ info.md5 = md5) := by
  have same : ∀ {answer : FileService.UploadStartResult} {last : World},
      ((.ok answer, last) : Except Failure FileService.UploadStartResult × World) =
        (.ok result, next) → answer = result ∧ last = next := by
    intro answer last equal
    obtain ⟨answers, lasts⟩ := Prod.mk.inj equal
    exact ⟨Except.ok.inj answers, lasts⟩
  unfold FileService.uploadStart at ran
  split at ran
  · obtain ⟨rfl, _⟩ := same ran
    cases accepted
  rw [execute_ask] at ran
  cases existing : (serve (outcomes.headD default)
    (.findIncompleteByKey userId (sanitizeFilename filename) filesize md5) world).1 with
  | some row =>
      obtain ⟨id, info⟩ := row
      rw [existing] at ran
      obtain ⟨rfl, rfl⟩ := same ran
      rw [serve] at existing
      split at existing
      next succeeds =>
        exact ⟨info, incomplete_found existing, rfl, .inl ⟨succeeds, existing⟩⟩
      · cases existing
  | none =>
      rw [existing] at ran
      simp only at ran
      rw [execute_ask, execute_ask, execute_ask] at ran
      split at ran
      · obtain ⟨rfl, _⟩ := same ran
        cases accepted
      next positive =>
        obtain ⟨rfl, rfl⟩ := same ran
        exact ⟨_, insert_answer (Int.not_le.mp positive), rfl, .inr ⟨rfl, rfl, rfl, rfl⟩⟩

theorem uploadData_answer {data : Bytes} {offset written : Int64} (something : data ≠ [])
    (ran : execute outcomes world (FileService.uploadData fileId userId data offset) =
      (.ok written, next)) (accepted : ¬written < 0) :
    ∃ info, world.fileInfo.get? fileId = some info ∧
      offset.toInt + data.length ≤ sizeOf next info.filepath := by
  unfold FileService.uploadData at ran
  rw [execute_ask] at ran
  have refused : ∀ {world : World}, ((.ok (-1), world) : Except Failure Int64 × World) =
      (.ok written, next) → False := by
    intro world answered
    obtain ⟨answered, _⟩ := Prod.mk.inj answered
    obtain rfl := Except.ok.inj answered
    exact accepted (by decide)
  cases read : (serve (outcomes.headD default) (.findById fileId) world).1 with
  | none =>
      rw [read] at ran
      exact (refused ran).elim
  | some info =>
      rw [read] at ran
      simp only at ran
      split at ran
      · exact (refused ran).elim
      split at ran
      · exact (refused ran).elim
      rw [execute_ask] at ran
      have result := writeChunk_written world (outcomes.tail.headD default) info.filepath data offset
      have served : serve (outcomes.tail.headD default) (.writeChunk info.filepath data offset)
          world = world.writeChunk (outcomes.tail.headD default) info.filepath data offset := rfl
      rw [show (serve (outcomes.headD default) (.findById fileId) world).2 = world from rfl,
        served] at ran
      generalize world.writeChunk (outcomes.tail.headD default) info.filepath data offset = chunk
        at ran result
      refine ⟨info, read_findById read, ?_⟩
      cases result with
      | unopened | opened | part => exact (refused ran).elim
      | whole start opened ready sought fits =>
          have length : (Int64.ofNat data.length).toInt = data.length :=
            Int64.toInt_ofNat_of_lt (by omega)
          split at ran
          · exact (refused ran).elim
          cases sum : add offset (.ofNat data.length) with
          | error failure =>
              rw [sum] at ran
              cases (Prod.mk.inj ran).1
          | ok finish =>
              rw [sum] at ran
              have last := congrArg Prod.snd ran
              change (serve _ (.updateUploadSize fileId (max info.uploadSize finish))
                (world.setFile info.filepath _)).2 = next at last
              have files : next.files = (world.setFile info.filepath (some (overlay 0 start
                  offset.toInt.toNat data))).files := by
                rw [← last]
                exact files_serve _ _ (by simp) (by simp)
              rw [sizeOf, files, files_setFile, if_pos rfl, Option.getD_some,
                length_overlay _ _ _ something]
              omega

theorem uploadFinalize_answer {content : Bytes}
    (found : world.fileInfo.get? fileId = some info) (owned : info.userId = userId)
    (stored : world.files info.filepath = some content)
    (whole : info.filesize ≤ .ofNat content.length)
    (read : (outcomes.headD default).succeeds = true)
    (measured : (second outcomes).succeeds = true) :
    (execute outcomes world (FileService.uploadFinalize fileId userId)).1 = .ok true := by
  unfold FileService.uploadFinalize
  rw [execute_ask, read_eq read found]
  simp only [owned, ne_eq, not_true_eq_false, if_false]
  have size : (serve (outcomes.tail.headD default) (.getFileSize info.filepath) world).1 =
      .ofNat content.length := by
    have measured' : (outcomes.tail.headD default).succeeds = true := measured
    simp only [serve, stored, if_pos measured']
  rw [execute_ask]
  rw [show (serve (outcomes.headD default) (.findById fileId) world).2 = world from rfl, size,
    if_neg (by
      rw [Int64.lt_iff_toInt_lt]
      rw [Int64.le_iff_toInt_le] at whole
      omega)]
  rfl

theorem readBack_ok {content : Bytes} {filesize chunkSize : Int64}
    (found : world.fileInfo.get? fileId = some info) (owned : info.userId = userId)
    (kept : info.status ≠ .kDeleted) (named : info.filepath ≠ [])
    (stored : world.files info.filepath = some content) (size : filesize.toInt = content.length)
    (positive : 0 < chunkSize.toInt) {fuel : Nat} {offset : Int64} (inFile : 0 ≤ offset.toInt)
    (below : offset.toInt ≤ content.length) (enough : content.length ≤ offset.toInt.toNat + fuel) :
    readBack world fileId userId filesize chunkSize fuel offset =
      some (content.drop offset.toInt.toNat) := by
  have top := filesize.toInt_lt
  induction fuel generalizing offset with
  | zero =>
      have ended : ¬offset < filesize := by
        rw [Int64.lt_iff_toInt_lt]
        omega
      rw [readBack, if_neg ended, List.drop_eq_nil_of_le (by omega)]
  | succ fuel inductionHypothesis =>
      rw [readBack]
      split
      next more =>
        rw [Int64.lt_iff_toInt_lt] at more
        have remaining : (filesize - offset).toInt = filesize.toInt - offset.toInt :=
          toInt_sub (by omega) (by omega)
        have least := min_toInt chunkSize (filesize - offset)
        have asked := @toNat_toUInt64 (min chunkSize (filesize - offset)) (by omega)
        generalize (min chunkSize (filesize - offset)).toUInt64 = asking at asked ⊢
        have read := @readChunk_ok world _ content offset asking named stored (by omega) inFile
          (by omega) (by omega)
        simp only [downloadChunk_eq found owned kept, read]
        have length : ((content.drop offset.toInt.toNat).take asking.toNat).length = asking.toNat := by
          rw [List.length_take, List.length_drop]
          omega
        have next : (offset + .ofNat asking.toNat).toInt = offset.toInt + asking.toNat := by
          rw [toInt_add] <;> rw [Int64.toInt_ofNat_of_lt (by omega)] <;> omega
        rw [length, inductionHypothesis (by omega) (by omega) (by omega), Option.map_some, next,
          Int.toNat_add inFile (Int.natCast_nonneg _), Int.toNat_natCast, ← List.drop_drop,
          List.take_append_drop]
      next ended =>
        rw [Int64.lt_iff_toInt_lt] at ended
        rw [List.drop_eq_nil_of_le (by omega)]

end Responses

structure SessionSound (upload : Upload) (state : ResumeState) : Prop where
  consistent : Consistent upload state.world
  session : ∀ fileId offset, state.session = some (fileId, offset) →
    ∃ info, state.world.fileInfo.get? fileId = some info ∧ upload.Owns info ∧
      0 ≤ offset.toInt ∧ offset.toInt ≤ sizeOf state.world info.filepath

theorem execute_map_reply {α : Type} {program : Handler α} {f : α → Reply} {world next : World}
    {outcomes : List Outcome} {result : Except Failure Reply}
    (ran : execute outcomes world (program >>= fun value => pure (f value)) = (result, next))
    (accepted : ((processes id isMethod).reply result).code = 0) :
    ∃ value, execute outcomes world program = (.ok value, next) ∧
      (processes id isMethod).reply result = f value := by
  replace ran : execute outcomes world (program.bind fun value => pure (f value)) =
    (result, next) := ran
  induction program generalizing outcomes world with
  | done value =>
      cases value with
      | ok value =>
          obtain ⟨rfl, rfl⟩ := Prod.mk.inj ran
          exact ⟨value, rfl, rfl⟩
      | error failure =>
          obtain ⟨rfl, rfl⟩ := Prod.mk.inj ran
          cases accepted
  | call call next inductionHypothesis => exact inductionHypothesis _ ran

section Steps

variable {upload : Upload} {before after : ResumeState} {next : World} {outcomes : List Outcome}

theorem opens_second (opens : ∀ outcome ∈ outcomes, outcome.Spares) :
    (second outcomes).Spares := by
  match outcomes with
  | [] | [_] => exact .inl rfl
  | _ :: outcome :: _ => exact opens outcome (by simp)

theorem SessionSound.advance (sound : SessionSound upload before)
    (advances : Advances upload before.world next) {fileId : Int} {offset : Int64}
    (open' : before.session = some (fileId, offset)) :
    ∃ info, next.fileInfo.get? fileId = some info ∧ upload.Owns info ∧
      0 ≤ offset.toInt ∧ offset.toInt ≤ sizeOf next info.filepath := by
  obtain ⟨info, found, owns, nonneg, reached⟩ := sound.session fileId offset open'
  obtain ⟨info', found', owns', path, grows⟩ := advances fileId info found owns
  exact ⟨info', found', owns', nonneg, path ▸ reached.trans (Int.ofNat_le.mpr grows)⟩

theorem SessionSound.request (sound : SessionSound upload before)
    (unshared : upload.Unshared before.world) (unsharedNext : upload.Unshared next)
    {step : ClientStep} {request : Request}
    (asked : upload.request before.session step = some request)
    (opens : ∀ outcome ∈ outcomes, outcome.Spares)
    (ran : (execute outcomes before.world (handler request)).2 = next) :
    Consistent upload next ∧ Advances upload before.world next := by
  cases session : before.session with
  | none =>
      cases step with
      | start =>
          rw [session] at asked
          obtain rfl := Option.some.inj asked
          rw [handler, execute_map] at ran
          exact sound.consistent.start unsharedNext ran
      | send size =>
          rw [session] at asked
          cases asked
      | finalize =>
          rw [session] at asked
          cases asked
  | some current =>
      obtain ⟨fileId, offset⟩ := current
      obtain ⟨info, found, owns, nonneg, reached⟩ := sound.session fileId offset session
      rw [session] at asked
      cases step with
      | start => cases asked
      | send size =>
          simp only [Upload.request] at asked
          split at asked
          · obtain rfl := Option.some.inj asked
            rw [handler, execute_map] at ran
            refine sound.consistent.write unshared ?_ ran
            intro info' found' _
            obtain rfl := Option.some.inj (found.symm.trans found')
            exact ⟨opens_second opens, reached, List.take_prefix _ _⟩
          · cases asked
      | finalize =>
          simp only [Upload.request] at asked
          split at asked
          · obtain rfl := Option.some.inj asked
            rw [handler, execute_map] at ran
            exact sound.consistent.finalize unshared ran
          · cases asked

theorem SessionSound.respond (sound : SessionSound upload before)
    {step : ClientStep} {request : Request} {result : Except Failure Reply}
    (asked : upload.request before.session step = some request)
    (finds : upload.FindsOwn ⟨before, .ask step outcomes, after⟩)
    (consistent : Consistent upload next) (advances : Advances upload before.world next)
    (ran : execute outcomes before.world (handler request) = (result, next)) :
    SessionSound upload ⟨next, respond before.session step ((processes id isMethod).reply result)⟩ := by
  refine ⟨consistent, ?_⟩
  intro fileId offset session
  simp only [Service.respond] at session
  split at session
  · cases session
  next refused =>
  have accepted := Classical.not_not.mp refused
  cases current : before.session with
  | none =>
      cases step with
      | start =>
          rw [current] at asked
          obtain rfl := Option.some.inj asked
          obtain ⟨value, started, replied⟩ := execute_map_reply ran accepted
          rw [replied] at accepted session
          obtain ⟨rfl, rfl⟩ := Prod.mk.inj (Option.some.inj session)
          have positive : 0 < value.fileId := by
            by_contra negative
            simp [if_neg negative] at accepted
          obtain ⟨info, found, progress, known⟩ := uploadStart_answer started positive
          have owns : upload.Owns info := by
            rcases known with ⟨succeeds, resumed⟩ | created
            · exact finds succeeds _ resumed
            · exact created
          have resumable := consistent.rows _ info found owns
          refine ⟨info, found, owns, ?_, ?_⟩
          · exact progress ▸ resumable.nonneg
          · exact progress ▸ resumable.reached
      | send size =>
          rw [current] at asked
          cases asked
      | finalize =>
          rw [current] at asked
          cases asked
  | some open' =>
      obtain ⟨id, position⟩ := open'
      rw [current] at asked session
      cases step with
      | start => cases asked
      | finalize => cases session
      | send size =>
          simp only [Upload.request] at asked
          split at asked
          next sendable =>
            obtain ⟨more, positive, fits⟩ := sendable
            obtain rfl := Option.some.inj asked
            obtain ⟨rfl, rfl⟩ := Prod.mk.inj (Option.some.inj session)
            obtain ⟨info, found, owns, nonneg, _⟩ := sound.session id position current
            obtain ⟨later, found', owns', path, _⟩ := advances id info found owns
            obtain ⟨value, sent, replied⟩ := execute_map_reply ran accepted
            rw [replied] at accepted
            have whole := upload.measured
            have top := upload.filesize.toInt_lt
            have length : ((upload.content.drop position.toInt.toNat).take size).length = size := by
              rw [List.length_take, List.length_drop]
              omega
            have something : (upload.content.drop position.toInt.toNat).take size ≠ [] := by
              rw [← List.length_pos_iff, length]
              exact positive
            obtain ⟨info', same, reached⟩ := uploadData_answer something sent (by
              intro negative
              simp [if_pos negative] at accepted)
            obtain rfl := Option.some.inj (found.symm.trans same)
            rw [length, ← path] at reached
            have advanced : (position + .ofNat size).toInt = position.toInt + size := by
              rw [toInt_add] <;> rw [Int64.toInt_ofNat_of_lt (by omega)] <;> omega
            refine ⟨later, found', owns', ?_, ?_⟩
            · show 0 ≤ (position + .ofNat size).toInt
              omega
            · show (position + .ofNat size).toInt ≤ sizeOf next later.filepath
              omega
          · cases asked

theorem SessionSound.step (sound : SessionSound upload before)
    (unshared : upload.Unshared before.world) (unsharedAfter : upload.Unshared after.world)
    {action : ResumeAction} (opens : action.Opens) (finds : upload.FindsOwn ⟨before, action, after⟩)
    (stepped : upload.step before action = some after) :
    SessionSound upload after ∧ Advances upload before.world after.world := by
  cases action with
  | ask step outcomes =>
      simp only [Upload.step, Option.map_eq_some_iff] at stepped
      obtain ⟨request, asked, rfl⟩ := stepped
      obtain ⟨consistent, advances⟩ := sound.request unshared unsharedAfter asked opens rfl
      exact ⟨sound.respond asked finds consistent advances rfl, advances⟩
  | cut step calls outcomes =>
      simp only [Upload.step, Option.map_eq_some_iff] at stepped
      obtain ⟨request, asked, rfl⟩ := stepped
      obtain ⟨others, opened, same⟩ :=
        exists_execute_eq_interrupt (handler request) calls outcomes before.world opens
      obtain ⟨consistent, advances⟩ := sound.request unshared unsharedAfter asked opened same
      exact ⟨⟨consistent, fun _ _ session => by cases session⟩, advances⟩
  | stop =>
      obtain rfl := Option.some.inj stepped
      exact ⟨⟨sound.consistent, fun _ _ session => by cases session⟩, .refl upload _⟩
  | other request outcomes =>
      simp only [Upload.step] at stepped
      split at stepped
      next elsewhere =>
        obtain rfl := Option.some.inj stepped
        obtain ⟨consistent, advances⟩ :=
          sound.consistent.other unshared unsharedAfter elsewhere rfl
        exact ⟨⟨consistent, fun _ _ => sound.advance advances⟩, advances⟩
      · cases stepped

end Steps

theorem sessions_sound {upload : Upload} {collate : Bytes → Bytes}
    {history : List (Event ResumeState ResumeAction)}
    {state : ResumeState} (run : Run (upload.sessions collate) history state)
    (opens : ∀ event ∈ history, event.action.Opens)
    (finds : ∀ event ∈ history, upload.FindsOwn event)
    (unshared : ∀ earlier, Visited history state earlier → upload.Unshared earlier.world) :
    SessionSound upload state := by
  induction run with
  | start =>
      refine ⟨⟨?_, ?_, ?_, ?_⟩, ?_⟩
      · exact fun _ _ found => by cases found
      · exact fun _ _ stored => by cases stored
      · exact fun _ _ found => by cases found
      · exact fun _ _ found => by cases found
      · exact fun _ _ session => by cases session
  | @next history before action after run stepped inductionHypothesis =>
      have sound := inductionHypothesis
        (fun event older => opens event (List.mem_cons_of_mem _ older))
        (fun event older => finds event (List.mem_cons_of_mem _ older))
        (fun earlier seen => unshared earlier (seen.next action))
      exact (sound.step (unshared before (.inr ⟨_, List.mem_cons_self, rfl⟩))
        (unshared after (.last _ _)) (opens _ List.mem_cons_self)
        (finds _ List.mem_cons_self) stepped).1

/-- The content is on disk under the record. -/
def Whole (upload : Upload) (world : World) (fileId : Int) : Prop :=
  ∃ info, world.fileInfo.get? fileId = some info ∧ upload.Owns info ∧
    world.files info.filepath = some upload.content

theorem Resumable.whole {upload : Upload} {world : World} {info : FileInfo}
    (resumable : Resumable upload world info)
    (reached : upload.content.length ≤ sizeOf world info.filepath) :
    world.files info.filepath = some upload.content := by
  have begins := resumable.stored
  have all := begins.eq_of_length_le reached
  cases stored : world.files info.filepath with
  | none =>
      rw [stored] at all
      exact absurd all.symm upload.something
  | some content =>
      rw [stored] at all
      exact congrArg some all

theorem SessionSound.whole {upload : Upload} {state : ResumeState}
    (sound : SessionSound upload state) {fileId : Int} {offset : Int64}
    (session : state.session = some (fileId, offset)) (ended : upload.filesize ≤ offset) :
    Whole upload state.world fileId := by
  obtain ⟨info, found, owns, _, reached⟩ := sound.session fileId offset session
  rw [Int64.le_iff_toInt_le, upload.measured] at ended
  exact ⟨info, found, owns, (sound.consistent.rows fileId info found owns).whole (by omega)⟩

theorem Whole.advance {upload : Upload} {world next : World} {fileId : Int}
    (whole : Whole upload world fileId) (advances : Advances upload world next)
    (consistent : Consistent upload next) : Whole upload next fileId := by
  obtain ⟨info, found, owns, stored⟩ := whole
  obtain ⟨info', found', owns', path, grows⟩ := advances fileId info found owns
  refine ⟨info', found', owns', (consistent.rows fileId info' found' owns').whole ?_⟩
  rw [path]
  rw [sizeOf, stored] at grows
  exact grows

theorem whole_finalized {upload : Upload} {collate : Bytes → Bytes}
    {history : List (Event ResumeState ResumeAction)}
    {state : ResumeState} (run : Run (upload.sessions collate) history state)
    (opens : ∀ event ∈ history, event.action.Opens)
    (finds : ∀ event ∈ history, upload.FindsOwn event)
    (unshared : ∀ earlier, Visited history state earlier → upload.Unshared earlier.world)
    {event : Event ResumeState ResumeAction} (membership : event ∈ history) {fileId : Int}
    {offset : Int64} {outcomes : List Outcome}
    (session : event.before.session = some (fileId, offset))
    (finalizes : event.action = .ask .finalize outcomes) :
    Whole upload state.world fileId := by
  induction run with
  | start => cases membership
  | @next history before action after run stepped inductionHypothesis =>
      have older : ∀ event ∈ history, event.action.Opens :=
        fun event older => opens event (List.mem_cons_of_mem _ older)
      have found : ∀ event ∈ history, upload.FindsOwn event :=
        fun event older => finds event (List.mem_cons_of_mem _ older)
      have seen : ∀ earlier, Visited history before earlier → upload.Unshared earlier.world :=
        fun earlier seen => unshared earlier (seen.next action)
      have sound := sessions_sound run older found seen
      obtain ⟨soundAfter, advances⟩ := sound.step (seen before (.last _ _))
        (unshared after (.last _ _)) (opens _ List.mem_cons_self)
        (finds _ List.mem_cons_self) stepped
      rcases List.mem_cons.mp membership with rfl | earlier
      · have ended : upload.filesize ≤ offset := by
          simp only at session finalizes
          subst finalizes
          simp only [Upload.sessions, Upload.step, session, Upload.request] at stepped
          split at stepped
          next ended => exact ended
          · cases stepped
        exact (sound.whole session ended).advance advances soundAfter.consistent
      · exact (inductionHypothesis older found seen earlier).advance advances soundAfter.consistent

/-- A session that gets to the end of the content finishes the upload, and from
then on the content is read back. -/
theorem resume_reproduces {upload : Upload} {collate : Bytes → Bytes}
    {history : List (Event ResumeState ResumeAction)}
    {state : ResumeState} (run : Run (upload.sessions collate) history state)
    (opens : ∀ event ∈ history, event.action.Opens)
    (finds : ∀ event ∈ history, upload.FindsOwn event)
    (unshared : ∀ earlier, Visited history state earlier → upload.Unshared earlier.world) :
    (∀ fileId offset outcomes, state.session = some (fileId, offset) →
      upload.filesize ≤ offset → (outcomes.headD default).succeeds = true →
      (second outcomes).succeeds = true →
      (execute outcomes state.world (FileService.uploadFinalize fileId upload.userId)).1 =
        .ok true) ∧
    ∀ event ∈ history, ∀ fileId offset outcomes,
      event.before.session = some (fileId, offset) →
      event.action = .ask .finalize outcomes →
      ∀ chunkSize : Int64, 0 < chunkSize → ∀ fuel, upload.content.length ≤ fuel →
        readBack state.world fileId upload.userId upload.filesize chunkSize fuel 0 =
          some upload.content := by
  have sound := sessions_sound run opens finds unshared
  have measured := upload.measured
  have top := upload.filesize.toInt_lt
  constructor
  · intro fileId offset outcomes session ended read sized
    obtain ⟨info, found, owns, stored⟩ := sound.whole session ended
    refine uploadFinalize_answer found owns.1 stored ?_ read sized
    rw [owns.2.2.1, Int64.le_iff_toInt_le, Int64.toInt_ofNat_of_lt (by omega), measured]
  · intro event membership fileId offset outcomes session finalizes chunkSize positive fuel enough
    obtain ⟨info, found, owns, stored⟩ :=
      whole_finalized run opens finds unshared membership session finalizes
    have resumable := sound.consistent.rows fileId info found owns
    rw [Int64.lt_iff_toInt_lt] at positive
    exact readBack_ok found owns.1 resumable.kept resumable.named stored measured positive
      (le_refl 0) (Int.natCast_nonneg _) (by simpa using enough)

section Interrupted

def sampleFile : Upload where
  userId := 1
  filename := [0x61]
  content := [7, 8]
  filesize := 2
  md5 := []
  something := by decide
  measured := by decide

/-- Upper case letters count as lower case. -/
def foldCase (text : Bytes) : Bytes :=
  text.map fun c => if 0x41 ≤ c ∧ c ≤ 0x5A then c + 0x20 else c

/-- The first session is cut off between the disk write and the progress. -/
def interruptedActions : List ResumeAction :=
  [.ask .start [], .cut (.send 1) 2 [], .ask .start [], .ask (.send 2) [], .ask .finalize []]

theorem unshared_of_single {upload : Upload} {world : World}
    (single : ∀ row ∈ world.fileInfo.rows, row.1 = 1) : upload.Unshared world := by
  intro fileId info other info' found _ found' _
  have first := single _ (world.fileInfo.mem_rows_iff.mpr found)
  have second := single _ (world.fileInfo.mem_rows_iff.mpr found')
  exact second.trans first.symm

def Single (history : List (Event ResumeState ResumeAction)) (state : ResumeState) : Prop :=
  ∀ earlier ∈ state :: history.map Event.before, ∀ row ∈ earlier.world.fileInfo.rows, row.1 = 1

instance (history : List (Event ResumeState ResumeAction)) (state : ResumeState) :
    Decidable (Single history state) := inferInstanceAs (Decidable (∀ _ ∈ _, _))

theorem Single.unshared {history : List (Event ResumeState ResumeAction)} {state : ResumeState}
    (single : Single history state) {upload : Upload} (earlier : ResumeState)
    (seen : Visited history state earlier) : upload.Unshared earlier.world := by
  rcases seen with rfl | ⟨event, membership, rfl⟩
  · exact unshared_of_single (single _ List.mem_cons_self)
  · exact unshared_of_single (single _ (List.mem_cons_of_mem _ (List.mem_map_of_mem membership)))

theorem opens_of_default {actions : List ResumeAction}
    (plain : actions.all fun action => match action with
      | .ask _ outcomes | .cut _ _ outcomes => outcomes.isEmpty
      | _ => true) {system : System ResumeState ResumeAction} {state : ResumeState} :
    ∀ event ∈ system.events state actions, event.action.Opens := by
  intro event membership
  have listed := List.all_eq_true.mp plain _ (System.action_mem_of_mem_events membership)
  cases action : event.action with
  | ask | cut =>
      rw [action] at listed
      rw [ResumeAction.Opens, List.isEmpty_iff.mp listed]
      exact fun _ none => by cases none
  | stop | other => trivial

def foldedSessions : System ResumeState ResumeAction := sampleFile.sessions foldCase

def resumed : ResumeState :=
  (foldedSessions.execute foldedSessions.initial interruptedActions).get (by decide +kernel)

theorem resume_reproduces_interrupted :
    readBack resumed.world 1 1 2 1 2 0 = some [7, 8] := by
  have run := foldedSessions.run interruptedActions (by decide +kernel)
  have single : Single (foldedSessions.events foldedSessions.initial interruptedActions)
      resumed := by
    decide +kernel
  have finds : ∀ event ∈ foldedSessions.events foldedSessions.initial interruptedActions,
      sampleFile.FindsOwn event := by
    decide +kernel
  have last : (foldedSessions.events foldedSessions.initial interruptedActions).head?.map
      (fun event => (event.before.session, event.action)) = some (some (1, 2), .ask .finalize []) := by
    decide +kernel
  obtain ⟨event, found, fields⟩ := Option.map_eq_some_iff.mp last
  obtain ⟨session, finalizes⟩ := Prod.mk.inj fields
  exact (resume_reproduces run (opens_of_default (by decide +kernel)) finds single.unshared).2 event
    (List.mem_of_mem_head? found) 1 2 [] session finalizes 1 (by decide) 2 (by decide)

end Interrupted

section Mistaken

/-- The first byte of another file, whose name differs by its case, is there
when the session begins. -/
def mistakenActions : List ResumeAction :=
  [.other (.uploadStart 1 [0x41] 2 []) [], .other (.uploadData 1 1 [9] 0) [], .ask .start [],
    .ask (.send 1) [], .ask .finalize []]

def mistaken : ResumeState :=
  (foldedSessions.execute foldedSessions.initial mistakenActions).get (by decide +kernel)

/-- The session resumes the other file and keeps its first byte. -/
theorem resume_mistaken : ¬∀ (upload : Upload) (collate : Bytes → Bytes) history state,
    Run (upload.sessions collate) history state → (∀ event ∈ history, event.action.Opens) →
      (∀ earlier, Visited history state earlier → upload.Unshared earlier.world) →
      ∀ event ∈ history, ∀ fileId offset outcomes,
        event.before.session = some (fileId, offset) → event.action = .ask .finalize outcomes →
        ∀ chunkSize : Int64, 0 < chunkSize → ∀ fuel, upload.content.length ≤ fuel →
          readBack state.world fileId upload.userId upload.filesize chunkSize fuel 0 =
            some upload.content := by
  intro reproduces
  have run := foldedSessions.run mistakenActions (by decide +kernel)
  have single : Single (foldedSessions.events foldedSessions.initial mistakenActions)
      mistaken := by
    decide +kernel
  have last : (foldedSessions.events foldedSessions.initial mistakenActions).head?.map
      (fun event => (event.before.session, event.action)) = some (some (1, 2), .ask .finalize []) := by
    decide +kernel
  obtain ⟨event, found, fields⟩ := Option.map_eq_some_iff.mp last
  obtain ⟨session, finalizes⟩ := Prod.mk.inj fields
  have read := reproduces sampleFile foldCase _ _ run (opens_of_default (by decide +kernel))
    single.unshared event (List.mem_of_mem_head? found) 1 2 [] session finalizes 1 (by decide) 2
    (by decide)
  have other : readBack mistaken.world 1 1 2 1 2 0 = some [9, 8] := by decide +kernel
  cases other.symm.trans read

end Mistaken

end FileServer.Service
