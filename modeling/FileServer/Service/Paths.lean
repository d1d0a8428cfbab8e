import FileServer.Service.Footprints
import FileServer.Service.SafeNames
import FileServer.Service.Sequential

/-!
# The paths of files

A path is made of the user, the second and the sanitised name, while a record
is known by its id.  Files share storage only when one user starts two of them
under one sanitised name in one second.
-/

namespace FileServer.Service

open FileServer.Relational FileServer.Transition

def livePath (world : World) (fileId : Int) : Option Bytes :=
  (world.fileInfo.get? fileId).bind fun info => if info.isDeleted then none else some info.filepath

def PathsDistinct (world : World) : Prop :=
  ∀ fileId other filepath, livePath world fileId = some filepath →
    livePath world other = some filepath → fileId = other

def Request.target : Request → Option Int
  | .uploadData fileId _ _ _ | .delete fileId _ => some fileId
  | _ => none

/-- Only the file of the record that is written or deleted changes. -/
def LeavesOthers (event : MethodEvent) : Prop :=
  ∀ other filepath, livePath event.before other = some filepath →
    event.action.1.target ≠ some other →
    event.after.files filepath = event.before.files filepath

/-- `UploadFinalize` completes the record. -/
def Completes (world : World) (fileId userId : Int) (outcomes : List Outcome) (info : FileInfo) :
    Prop :=
  (outcomes.headD default).succeeds = true ∧ world.fileInfo.get? fileId = some info ∧
    info.userId = userId ∧
    ¬(serve (second outcomes) (.getFileSize info.filepath) world).1 < info.filesize ∧
    ((third outcomes).succeeds = true ∨ (third outcomes).applied = true)

/-- `UploadStart` inserts the record for the user, at the time, under the
sanitised name. -/
def Starts (event : MethodEvent) (fileId userId : Int) (tm : Tm) (name : Bytes) : Prop :=
  ∃ filename filesize md5 outcomes,
    event.action = (.uploadStart userId filename filesize md5, outcomes) ∧
      Inserts event.before userId filename filesize md5 outcomes ∧
      fileId = event.before.lastInsertId + 1 ∧ tm = (third outcomes).tm ∧
      name = sanitizeFilename filename

def Started (history : List MethodEvent) (fileId userId : Int) (tm : Tm) (name : Bytes) : Prop :=
  ∃ event ∈ history, ∃ tm', Starts event fileId userId tm' name ∧ timeStamp tm' = timeStamp tm

/-- A record that is not deleted. -/
def Live (world : World) (fileId : Int) : Prop :=
  ∃ info, world.fileInfo.get? fileId = some info ∧ info.status ≠ .kDeleted

/-- The records were started by one user, in one second, under one sanitised
name. -/
def StartedAlike (history : List MethodEvent) (fileId other : Int) : Prop :=
  ∃ userId tm name, Started history fileId userId tm name ∧ Started history other userId tm name

/-- No record is inserted or completed, and no file is removed, while another
record like it is live. -/
def TakesOwnPath (earlier : List MethodEvent) (event : MethodEvent) : Prop :=
  match event.action with
  | (.uploadStart userId filename filesize md5, outcomes) =>
      Inserts event.before userId filename filesize md5 outcomes → ∀ other, Live event.before other →
        ¬Started earlier other userId (third outcomes).tm (sanitizeFilename filename)
  | (.uploadFinalize fileId userId, outcomes) =>
      ∀ info, Completes event.before fileId userId outcomes info → ∀ other, other ≠ fileId →
        Live event.before other → ¬StartedAlike earlier fileId other
  | (.delete fileId userId, outcomes) =>
      ∀ info, Removes event.before fileId userId outcomes info → ∀ other, other ≠ fileId →
        Live event.before other → ¬StartedAlike earlier fileId other
  | _ => True

def TakeOwnPaths : List MethodEvent → Prop
  | [] => True
  | event :: earlier => TakesOwnPath earlier event ∧ TakeOwnPaths earlier

/-- No record comes to have the path of another one, and no file is removed that
is also another record's. -/
def LeavesPaths (event : MethodEvent) : Prop :=
  match event.action with
  | (.uploadStart userId filename filesize md5, outcomes) =>
      Inserts event.before userId filename filesize md5 outcomes → ∀ other,
        livePath event.before other ≠
          some (generateFilepath userId (sanitizeFilename filename) (third outcomes).tm)
  | (.uploadFinalize fileId userId, outcomes) =>
      ∀ info, Completes event.before fileId userId outcomes info → ∀ other, other ≠ fileId →
        livePath event.before other ≠ some info.filepath
  | (.delete fileId userId, outcomes) =>
      ∀ info, Removes event.before fileId userId outcomes info → ∀ other, other ≠ fileId →
        livePath event.before other ≠ some info.filepath
  | _ => True

section Effects

variable {outcomes : List Outcome} {world next : World} {fileId userId : Int}

def IdsGiven (world : World) : Prop :=
  ∀ fileId info, world.fileInfo.get? fileId = some info → fileId ≤ world.lastInsertId

theorem IdsGiven.fresh (given : IdsGiven world) :
    world.fileInfo.get? (world.lastInsertId + 1) = none := by
  by_contra present
  obtain ⟨info, found⟩ := Option.ne_none_iff_exists'.mp present
  have bound := given _ info found
  omega

theorem IdsGiven.modifyRow (given : IdsGiven world) (id : Int) (f : FileInfo → FileInfo) :
    IdsGiven (world.modifyRow id f) := by
  intro other info found
  have present := (@Table.get?_modify_eq_none _ _ _ world.fileInfo id other f).not.mp
    (by rw [World.modifyRow] at found; simp [found])
  obtain ⟨row, found⟩ := Option.ne_none_iff_exists'.mp present
  exact given other row found

theorem idsGiven_serve (outcome : Outcome) (call : Call) (given : IdsGiven world) :
    IdsGiven (serve outcome call world).2 := by
  cases call with
  | insert file =>
      rcases serve_insert_cases outcome file world with ⟨same, _⟩ | ⟨_, id, inserted⟩
      · rwa [same]
      · obtain ⟨fresh, rfl, after⟩ := insertRow_eq_some.mp inserted
        rw [after]
        intro other info found
        rw [Table.get?_insertNew] at found
        split at found
        next same => exact le_of_eq same
        · exact Int.le_add_one (given other info found)
  | updateUploadSize | updateStatus | extendUpload =>
      simp only [serve]
      split
      · exact given.modifyRow _ _
      · exact given
  | writeChunk filepath data offset =>
      have same : (serve outcome (.writeChunk filepath data offset) world).2.lastInsertId =
          world.lastInsertId := by
        have written := writeChunk_written world outcome filepath data offset
        simp only [serve]
        generalize world.writeChunk outcome filepath data offset = result at written ⊢
        cases written <;> rfl
      intro other info found
      rw [serve, fileInfo_writeChunk] at found
      rw [same]
      exact given other info found
  | deleteFile =>
      simp only [serve]
      split <;> exact given
  | findById | findIncompleteByKey | localtime | createUserDir | getFileSize => exact given

theorem execute_keeps (Invariant : World → Prop)
    (kept : ∀ outcome call world, Invariant world → Invariant (serve outcome call world).2)
    {α : Type} (program : Handler α) (outcomes : List Outcome) {world : World}
    (holds : Invariant world) : Invariant (execute outcomes world program).2 := by
  induction program generalizing outcomes world with
  | done result => exact holds
  | call call next inductionHypothesis =>
      exact inductionHypothesis _ _ (kept (outcomes.headD default) call world holds)

theorem run_idsGiven {history : List MethodEvent} {collate : Bytes → Bytes}
    (run : Run (monolith collate) history world) :
    IdsGiven world := by
  apply run.invariant IdsGiven
  · exact fun _ _ found => nomatch found
  · rintro before ⟨request, outcomes⟩ after given stepped
    simp only [monolith] at stepped
    split at stepped
    · cases stepped
      exact execute_keeps IdsGiven (fun outcome call world => idsGiven_serve outcome call) _ _ given
    · cases stepped

theorem uploadStart_exact (given : IdsGiven world) {filename : Bytes} {filesize : Int64} {md5 : Bytes}
    (ran : (execute outcomes world
      (FileService.uploadStart userId filename filesize md5)).2 = next) :
    Inserts world userId filename filesize md5 outcomes ∧ world.insertRow
        (newRow userId filename filesize md5 outcomes) = some (world.lastInsertId + 1, next) ∨
      ¬Inserts world userId filename filesize md5 outcomes ∧ next = world := by
  rcases uploadStart_effect ran with ⟨rfl, kept⟩ | ⟨inserts, id, inserted⟩
  · refine .inr ⟨fun inserts => ?_, rfl⟩
    have created : next.insertRow (newRow userId filename filesize md5 outcomes) ≠ none := by
      rw [insertRow_eq_some.mpr ⟨given.fresh, rfl, rfl⟩]
      exact Option.some_ne_none _
    exact created (kept inserts)
  · obtain ⟨_, rfl, _⟩ := insertRow_eq_some.mp inserted
    exact .inl ⟨inserts, inserted⟩

theorem read_eq {outcome : Outcome} {info : FileInfo} (succeeds : outcome.succeeds = true)
    (found : world.fileInfo.get? fileId = some info) :
    (serve outcome (.findById fileId) world).1 = some info := by
  rw [serve, if_pos succeeds]
  exact found

theorem get?_modifyRow (world : World) (id other : Int) (f : FileInfo → FileInfo) :
    (world.modifyRow id f).fileInfo.get? other =
      if other = id then (world.fileInfo.get? other).map f else world.fileInfo.get? other :=
  Table.get?_modify _ _ _ _

theorem get?_modifyRow_self {info : FileInfo} (found : world.fileInfo.get? fileId = some info)
    {f : FileInfo → FileInfo} : (world.modifyRow fileId f).fileInfo.get? fileId = some (f info) := by
  rw [get?_modifyRow, if_pos rfl, found]
  rfl

theorem serve_updateStatus_of {outcome : Outcome} {status : FileStatus}
    (stored : outcome.succeeds = true ∨ outcome.applied = true) :
    (serve outcome (.updateStatus fileId status) world).2 =
      world.modifyRow fileId fun info => { info with status } := by
  simp only [serve, if_pos stored]

/-- The progress of a record says nothing of its path. -/
theorem rows_updateUploadSize (outcome : Outcome) (id : Int) (uploadSize : Int64) (world : World) :
    (serve outcome (.updateUploadSize id uploadSize) world).2.files = world.files ∧
      (∀ other, other ≠ id → (serve outcome (.updateUploadSize id uploadSize)
        world).2.fileInfo.get? other = world.fileInfo.get? other) ∧
      ∀ info, world.fileInfo.get? id = some info → ∃ stored,
        (serve outcome (.updateUploadSize id uploadSize) world).2.fileInfo.get? id =
          some { info with uploadSize := stored } := by
  rcases serve_updateUploadSize_cases outcome id uploadSize world with same | changed
  · rw [same]
    exact ⟨rfl, fun _ _ => rfl, fun info found => ⟨info.uploadSize, found⟩⟩
  · rw [changed]
    refine ⟨rfl, fun other different => by rw [get?_modifyRow, if_neg different], ?_⟩
    intro info found
    exact ⟨uploadSize, by rw [get?_modifyRow, if_pos rfl, found]; rfl⟩

theorem livePath_of_row {info : FileInfo} (found : world.fileInfo.get? fileId = some info) :
    livePath world fileId = if info.isDeleted then none else some info.filepath := by
  rw [livePath, found, Option.bind_some]

theorem uploadFinalize_exact
    (ran : (execute outcomes world (FileService.uploadFinalize fileId userId)).2 = next) :
    next.files = world.files ∧
      (∀ other, other ≠ fileId → next.fileInfo.get? other = world.fileInfo.get? other) ∧
      ((∃ info, Completes world fileId userId outcomes info ∧
          livePath next fileId = some info.filepath) ∨
        (∀ info, ¬Completes world fileId userId outcomes info) ∧
          livePath next fileId = livePath world fileId) := by
  unfold FileService.uploadFinalize at ran
  rw [execute_ask] at ran
  cases read : (serve (outcomes.headD default) (.findById fileId) world).1 with
  | none =>
      rw [read] at ran
      obtain rfl := ran
      refine ⟨rfl, fun _ _ => rfl, .inr ⟨?_, rfl⟩⟩
      rintro info ⟨succeeds, found, _⟩
      rw [read_eq succeeds found] at read
      cases read
  | some info =>
      have found := read_findById read
      have only : ∀ other, Completes world fileId userId outcomes other → other = info := by
        rintro other ⟨_, found', _⟩
        rw [found, Option.some.injEq] at found'
        exact found'.symm
      rw [read] at ran
      simp only at ran
      split at ran
      next foreign =>
        obtain rfl := ran
        refine ⟨rfl, fun _ _ => rfl, .inr ⟨?_, rfl⟩⟩
        intro other completes
        obtain rfl := only other completes
        exact foreign completes.2.2.1
      next owned =>
      rw [execute_ask] at ran
      split at ran
      next small =>
        obtain rfl := ran
        refine ⟨rfl, fun _ _ => rfl, .inr ⟨?_, rfl⟩⟩
        intro other completes
        obtain rfl := only other completes
        exact completes.2.2.2.1 small
      next large =>
      rw [execute_ask, execute_ask, execute_pure] at ran
      replace ran : (serve (fourth outcomes) (.updateUploadSize fileId info.filesize)
          (serve (third outcomes) (.updateStatus fileId .kCompleted) world).2).2 = next := ran
      obtain ⟨files, others, row⟩ := rows_updateUploadSize (fourth outcomes) fileId info.filesize
        (serve (third outcomes) (.updateStatus fileId .kCompleted) world).2
      rw [ran] at files others row
      by_cases stored : (third outcomes).succeeds = true ∨ (third outcomes).applied = true
      · simp only [serve_updateStatus_of stored] at files others row
        obtain ⟨uploadSize, last⟩ := row _ (get?_modifyRow_self found)
        refine ⟨files, ?_, .inl ⟨info, ⟨succeeds_of_read read, found, ?_, large, stored⟩, ?_⟩⟩
        · intro other different
          rw [others other different, get?_modifyRow, if_neg different]
        · exact Classical.not_not.mp owned
        · rw [livePath_of_row last]
          rfl
      · simp only [serve, if_neg stored] at files others row
        obtain ⟨uploadSize, last⟩ := row info found
        refine ⟨files, others, .inr ⟨fun other completes => stored completes.2.2.2.2, ?_⟩⟩
        rw [livePath_of_row last, livePath_of_row found]
        rfl

theorem uploadData_exact {data : Bytes} {offset : Int64}
    (ran : (execute outcomes world (FileService.uploadData fileId userId data offset)).2 = next) :
    (∀ other, livePath next other = livePath world other) ∧
      (next.files = world.files ∨ ∃ filepath, livePath world fileId = some filepath ∧
        ∀ path, path ≠ filepath → next.files path = world.files path) := by
  rcases uploadData_effect ran with
    rfl | ⟨_, info, written, chunked, found, _, uploading, chunk, result⟩
  · exact ⟨fun _ => rfl, .inl rfl⟩
  · have live : livePath world fileId = some info.filepath := by
      rw [livePath_of_row found, FileInfo.isDeleted, uploading]
      rfl
    have rows : chunked.fileInfo = world.fileInfo := by
      rw [← fileInfo_writeChunk world (second outcomes) info.filepath data offset, chunk]
    have elsewhere : ∀ path, path ≠ info.filepath → chunked.files path = world.files path := by
      intro path away
      have same := files_writeChunk_of_ne world (second outcomes) data offset away
      rwa [chunk] at same
    rcases result with rfl | ⟨_, _, rfl⟩
    · exact ⟨fun other => by rw [livePath, rows, livePath], .inr ⟨_, live, elsewhere⟩⟩
    · refine ⟨?_, .inr ⟨_, live, elsewhere⟩⟩
      intro other
      rw [livePath, get?_modifyRow, rows, livePath]
      split
      · cases world.fileInfo.get? other <;> rfl
      · rfl

theorem delete_exact
    (ran : (execute outcomes world (FileService.delete fileId userId)).2 = next) :
    (∀ other, livePath next other = livePath world other ∨
        other = fileId ∧ livePath next other = none) ∧
      ((∃ info, Removes world fileId userId outcomes info ∧ next.files info.filepath = none ∧
          ∀ path, path ≠ info.filepath → next.files path = world.files path) ∨
        (∀ info, ¬Removes world fileId userId outcomes info) ∧ next.files = world.files) := by
  unfold FileService.delete at ran
  rw [execute_ask] at ran
  cases read : (serve (outcomes.headD default) (.findById fileId) world).1 with
  | none =>
      rw [read] at ran
      obtain rfl := ran
      refine ⟨fun _ => .inl rfl, .inr ⟨?_, rfl⟩⟩
      rintro info ⟨succeeds, found, _⟩
      rw [read_eq succeeds found] at read
      cases read
  | some info =>
      have found := read_findById read
      have only : ∀ other, Removes world fileId userId outcomes other → other = info := by
        rintro other ⟨_, found', _⟩
        rw [found, Option.some.injEq] at found'
        exact found'.symm
      rw [read] at ran
      simp only at ran
      split at ran
      next foreign =>
        obtain rfl := ran
        refine ⟨fun _ => .inl rfl, .inr ⟨?_, rfl⟩⟩
        intro other removes
        obtain rfl := only other removes
        exact foreign removes.2.2.1
      next owned =>
      rw [execute_ask, execute_ask, execute_pure] at ran
      replace ran : (serve (third outcomes) (.deleteFile info.filepath)
          (serve (second outcomes) (.updateStatus fileId .kDeleted) world).2).2 = next := ran
      obtain ⟨files, paths⟩ : (serve (second outcomes) (.updateStatus fileId .kDeleted)
          world).2.files = world.files ∧ ∀ other,
          livePath (serve (second outcomes) (.updateStatus fileId .kDeleted) world).2 other =
            livePath world other ∨ other = fileId ∧
          livePath (serve (second outcomes) (.updateStatus fileId .kDeleted) world).2 other = none := by
        rcases serve_updateStatus_cases (second outcomes) fileId .kDeleted world with
          ⟨_, same⟩ | marked
        · rw [same]
          exact ⟨rfl, fun _ => .inl rfl⟩
        · rw [marked]
          refine ⟨rfl, ?_⟩
          intro other
          by_cases same : other = fileId
          · subst same
            right
            rw [livePath_of_row (get?_modifyRow_self found)]
            exact ⟨rfl, rfl⟩
          · left
            rw [livePath, get?_modifyRow, if_neg same, livePath]
      generalize (serve (second outcomes) (.updateStatus fileId .kDeleted) world).2 = marked
        at ran files paths
      simp only [serve] at ran
      split at ran
      next removed =>
        subst next
        refine ⟨paths, .inl ⟨info, ⟨succeeds_of_read read, found, Classical.not_not.mp owned, ?_,
          removed.2⟩, ?_, ?_⟩⟩
        · rw [← files]
          exact removed.1
        · rw [files_setFile, if_pos rfl]
        · intro path away
          rw [files_setFile, if_neg away, files]
      next kept =>
        subst next
        refine ⟨paths, .inr ⟨?_, files⟩⟩
        intro other removes
        obtain rfl := only other removes
        exact kept ⟨by rw [files]; exact removes.2.2.2.1, removes.2.2.2.2⟩

end Effects

section Runs

variable {collate : Bytes → Bytes} {history : List MethodEvent} {before after world : World}
  {request : Request} {outcomes : List Outcome}

theorem livePath_insertRow {info : FileInfo} {id : Int} {next : World}
    (inserted : world.insertRow info = some (id, next)) (uploading : info.status = .kUploading)
    (other : Int) :
    livePath next other = if other = id then some info.filepath else livePath world other := by
  rw [livePath, (insertRow_rows inserted).1]
  split
  · rw [Option.bind_some, FileInfo.isDeleted, uploading]
    rfl
  · rfl

/-- A step keeps the paths apart exactly when no record takes another's path. -/
theorem paths_step (given : IdsGiven before) (distinct : PathsDistinct before)
    (stepped : (monolith collate).step before (request, outcomes) = some after) :
    PathsDistinct after ∧ LeavesOthers ⟨before, (request, outcomes), after⟩ ↔
      LeavesPaths ⟨before, (request, outcomes), after⟩ := by
  simp only [monolith] at stepped
  split at stepped
  next method =>
    simp only [Option.some.injEq] at stepped
    have ran : (execute outcomes before (handler request)).2 = after := stepped
    cases request with
    | prepareUploadChunk | confirmUploadChunk | finalizeUpload | writeChunk => cases method
    | uploadStart userId filename filesize md5 =>
        rw [handler, execute_map] at ran
        rcases uploadStart_exact given ran with ⟨inserts, inserted⟩ | ⟨keeps, rfl⟩
        · have paths := livePath_insertRow inserted rfl
          have files := (insertRow_rows inserted).2
          constructor
          · rintro ⟨distinctAfter, _⟩ _ other taken
            have same := distinctAfter other (before.lastInsertId + 1) _
              (by
                rw [paths, if_neg]
                · exact taken
                rintro rfl
                rw [livePath, given.fresh] at taken
                cases taken)
              (by rw [paths, if_pos rfl]; rfl)
            rw [same, livePath, given.fresh] at taken
            cases taken
          · intro own
            have free := own inserts
            refine ⟨?_, fun other filepath _ _ => by rw [files]⟩
            intro first second filepath found found'
            rw [paths] at found found'
            split at found
            next here =>
              split at found'
              next there => rw [here, there]
              · cases found
                exact absurd found' (free second)
            · split at found'
              · cases found'
                exact absurd found (free first)
              · exact distinct first second filepath found found'
        · exact ⟨fun _ inserts => absurd inserts keeps, fun _ => ⟨distinct, fun _ _ _ _ => rfl⟩⟩
    | uploadData fileId userId data offset =>
        rw [handler, execute_map] at ran
        obtain ⟨paths, files⟩ := uploadData_exact ran
        refine ⟨fun _ => trivial, fun _ => ⟨?_, ?_⟩⟩
        · intro first second filepath found found'
          rw [paths] at found found'
          exact distinct first second filepath found found'
        · intro other filepath live different
          rcases files with same | ⟨path, live', elsewhere⟩
          · rw [same]
          · apply elsewhere
            rintro rfl
            exact different (congrArg some (distinct fileId other filepath live' live))
    | uploadFinalize fileId userId =>
        rw [handler, execute_map] at ran
        obtain ⟨files, others, result⟩ := uploadFinalize_exact ran
        have paths : ∀ other, other ≠ fileId → livePath after other = livePath before other := by
          intro other different
          rw [livePath, others other different, livePath]
        have leaves : LeavesOthers ⟨before, (.uploadFinalize fileId userId, outcomes), after⟩ :=
          fun other filepath _ _ => by rw [files]
        rcases result with ⟨info, completes, live⟩ | ⟨keeps, same⟩
        · constructor
          · rintro ⟨distinctAfter, _⟩ other completes' another different taken
            have found := completes.2.1.symm.trans completes'.2.1
            rw [Option.some.injEq] at found
            subst other
            rw [← paths another different] at taken
            exact different (distinctAfter another fileId _ taken live)
          · intro own
            have free := own info completes
            refine ⟨?_, leaves⟩
            intro first second filepath found found'
            by_cases here : first = fileId
            · by_cases there : second = fileId
              · rw [here, there]
              · rw [here, live] at found
                cases found
                rw [paths second there] at found'
                exact absurd found' (free second there)
            · rw [paths first here] at found
              by_cases there : second = fileId
              · rw [there, live] at found'
                cases found'
                exact absurd found (free first here)
              · rw [paths second there] at found'
                exact distinct first second filepath found found'
        · refine ⟨fun _ info completes => absurd completes (keeps info), fun _ => ⟨?_, leaves⟩⟩
          have all : ∀ other, livePath after other = livePath before other := by
            intro other
            by_cases here : other = fileId
            · rw [here, same]
            · exact paths other here
          intro first second filepath found found'
          rw [all] at found found'
          exact distinct first second filepath found found'
    | delete fileId userId =>
        rw [handler, execute_map] at ran
        obtain ⟨paths, files⟩ := delete_exact ran
        have distinctAfter : PathsDistinct after := by
          have back : ∀ other filepath, livePath after other = some filepath →
              livePath before other = some filepath := by
            intro other filepath found
            rcases paths other with same | ⟨_, gone⟩
            · rwa [same] at found
            · rw [gone] at found
              cases found
          exact fun first second filepath found found' =>
            distinct first second filepath (back _ _ found) (back _ _ found')
        rcases files with ⟨info, removes, gone, elsewhere⟩ | ⟨keeps, same⟩
        · constructor
          · rintro ⟨_, leaves⟩ other removes' another different taken
            have found := removes.2.1.symm.trans removes'.2.1
            rw [Option.some.injEq] at found
            subst other
            have unchanged := leaves another info.filepath taken
              (fun same => different (Option.some.inj same).symm)
            have present := removes.2.2.2.1
            rw [← unchanged, gone] at present
            cases present
          · intro own
            have free := own info removes
            refine ⟨distinctAfter, ?_⟩
            intro other filepath live different
            apply elsewhere
            rintro rfl
            exact free other (fun same => different (congrArg some same.symm)) live
        · exact ⟨fun _ info removes => absurd removes (keeps info),
            fun _ => ⟨distinctAfter, fun other filepath _ _ => by rw [same]⟩⟩
  · cases stepped

/-- The path of a record. -/
def filepathOf (world : World) (fileId : Int) : Option Bytes :=
  (world.fileInfo.get? fileId).map FileInfo.filepath

theorem livePath_eq_some {fileId : Int} {filepath : Bytes} :
    livePath world fileId = some filepath ↔
      Live world fileId ∧ filepathOf world fileId = some filepath := by
  rw [livePath, filepathOf, Live]
  cases world.fileInfo.get? fileId with
  | none => simp
  | some info => by_cases deleted : info.status = .kDeleted <;> simp [FileInfo.isDeleted, deleted]

theorem filepathOf_execute {α : Type} {program : Handler α} {allowed : Call → Prop}
    (calls : program.Calls allowed) (inserts : ∀ file, ¬allowed (.insert file))
    (outcomes : List Outcome) (world : World) (fileId : Int) :
    filepathOf (execute outcomes world program).2 fileId = filepathOf world fileId := by
  induction program generalizing outcomes world with
  | done result => rfl
  | call call next inductionHypothesis =>
      refine (inductionHypothesis _ (calls.2 _) outcomes.tail
        (serve (outcomes.headD default) call world).2).trans ?_
      have rewrites := serve_rewrites (outcomes.headD default) call world fileId
      rw [filepathOf, filepathOf]
      generalize (serve (outcomes.headD default) call world).2.fileInfo.get? fileId = row at rewrites ⊢
      generalize world.fileInfo.get? fileId = row' at rewrites ⊢
      cases rewrites with
      | insert file => exact absurd calls.1 (inserts file)
      | keep | uploadSize | extend | status => rfl

theorem insert_not_permitted {request : Request}
    (other : ∀ userId filename filesize md5, request ≠ .uploadStart userId filename filesize md5)
    (file : FileInfo) : ¬Permitted request (.insert file) := by
  intro permitted
  cases request with
  | uploadStart => exact other _ _ _ _ rfl
  | _ => exact permitted

theorem filepathOf_step (given : IdsGiven before)
    (stepped : (monolith collate).step before (request, outcomes) = some after) (fileId : Int)
    (filepath : Bytes) :
    filepathOf after fileId = some filepath ↔
      (∃ userId tm name, Starts ⟨before, (request, outcomes), after⟩ fileId userId tm name ∧
        filepath = generateFilepath userId name tm) ∨ filepathOf before fileId = some filepath := by
  simp only [monolith] at stepped
  split at stepped
  next method =>
    have ran : (execute outcomes before (handler request)).2 = after := Option.some.inj stepped
    by_cases starting : ∃ userId filename filesize md5,
      request = .uploadStart userId filename filesize md5
    · obtain ⟨userId, filename, filesize, md5, rfl⟩ := starting
      rw [handler, execute_map] at ran
      rcases uploadStart_exact given ran with ⟨inserts, inserted⟩ | ⟨keeps, rfl⟩
      · rw [filepathOf, (insertRow_rows inserted).1]
        by_cases here : fileId = before.lastInsertId + 1
        · subst here
          rw [if_pos rfl, filepathOf, given.fresh]
          constructor
          · intro path
            exact .inl ⟨userId, _, _, ⟨filename, filesize, md5, outcomes, rfl, inserts, rfl, rfl, rfl⟩,
              (Option.some.inj path).symm⟩
          · rintro (⟨_, _, _, ⟨_, _, _, _, same, _, _, rfl, rfl⟩, rfl⟩ | older)
            · cases same
              rfl
            · cases older
        · rw [if_neg here]
          exact ⟨.inr, fun either => either.resolve_left (by
            rintro ⟨_, _, _, ⟨_, _, _, _, same, _, there, _⟩, _⟩
            exact here there)⟩
      · exact ⟨.inr, fun either => either.resolve_left (by
          rintro ⟨_, _, _, ⟨_, _, _, _, same, inserts, _⟩, _⟩
          cases same
          exact keeps inserts)⟩
    · simp only [not_exists] at starting
      rw [← ran, filepathOf_execute (handler_calls request)
        (insert_not_permitted starting)]
      exact ⟨.inr, fun either => either.resolve_left (by
        rintro ⟨userId, _, _, ⟨filename, filesize, md5, _, same, _⟩, _⟩
        exact starting userId filename filesize md5 (Prod.mk.inj same).1)⟩
  · cases stepped

/-- Records are known by the paths that they were started with. -/
theorem started_iff (run : Run (monolith collate) history world) (fileId userId : Int) (tm : Tm)
    (name : Bytes) :
    Started history fileId userId tm name ↔
      filepathOf world fileId = some (generateFilepath userId name tm) := by
  induction run with
  | start => exact ⟨fun ⟨_, membership, _⟩ => (by cases membership), fun found => (by cases found)⟩
  | @next history before action after run stepped inductionHypothesis =>
      obtain ⟨request, outcomes⟩ := action
      rw [filepathOf_step (run_idsGiven run) stepped, ← inductionHypothesis]
      constructor
      · rintro ⟨event, membership, tm', starts, second⟩
        rcases List.mem_cons.mp membership with rfl | older
        · exact .inl ⟨userId, tm', name, starts, generateFilepath_inj.mpr ⟨rfl, second.symm, rfl⟩⟩
        · exact .inr ⟨event, older, tm', starts, second⟩
      · rintro (⟨userId', tm', name', starts, path⟩ | ⟨event, older, tm', starts, second⟩)
        · obtain ⟨rfl, second, rfl⟩ := generateFilepath_inj.mp path
          exact ⟨_, List.mem_cons_self, tm', starts, second.symm⟩
        · exact ⟨event, List.mem_cons_of_mem _ older, tm', starts, second⟩

theorem started_of_filepathOf (run : Run (monolith collate) history world) {fileId : Int}
    {filepath : Bytes} (found : filepathOf world fileId = some filepath) :
    ∃ userId tm name, filepath = generateFilepath userId name tm := by
  induction run with
  | start => cases found
  | @next history before action after run stepped inductionHypothesis =>
      obtain ⟨request, outcomes⟩ := action
      rcases (filepathOf_step (run_idsGiven run) stepped _ _).mp found with
        ⟨userId, tm, name, _, path⟩ | older
      · exact ⟨userId, tm, name, path⟩
      · exact inductionHypothesis older

theorem startedAlike_iff (run : Run (monolith collate) history world) {fileId : Int} {filepath : Bytes}
    (found : filepathOf world fileId = some filepath) (other : Int) :
    StartedAlike history fileId other ↔ filepathOf world other = some filepath := by
  simp only [StartedAlike, started_iff run, found, Option.some.injEq]
  constructor
  · rintro ⟨userId, tm, name, rfl, same⟩
    exact same
  · intro same
    obtain ⟨userId, tm, name, rfl⟩ := started_of_filepathOf run found
    exact ⟨userId, tm, name, rfl, same⟩

/-- A path is taken again exactly when a record is started like another one. -/
theorem takesOwnPath_iff (run : Run (monolith collate) history before) :
    TakesOwnPath history ⟨before, (request, outcomes), after⟩ ↔
      LeavesPaths ⟨before, (request, outcomes), after⟩ := by
  have others : ∀ {fileId : Int} {info : FileInfo} (other : Int),
      before.fileInfo.get? fileId = some info →
      ((Live before other → ¬StartedAlike history fileId other) ↔
        livePath before other ≠ some info.filepath) := by
    intro fileId info other found
    rw [startedAlike_iff run (show filepathOf before fileId = some info.filepath by
      rw [filepathOf, found]; rfl), Ne, livePath_eq_some, not_and]
  cases request with
  | uploadStart userId filename filesize md5 =>
      refine forall_congr' fun inserts => forall_congr' fun other => ?_
      rw [started_iff run, Ne, livePath_eq_some, not_and]
  | uploadFinalize fileId userId =>
      exact forall_congr' fun info => forall_congr' fun completes => forall_congr' fun other =>
        forall_congr' fun different => others other completes.2.1
  | delete fileId userId =>
      exact forall_congr' fun info => forall_congr' fun removes => forall_congr' fun other =>
        forall_congr' fun different => others other removes.2.1
  | _ => exact Iff.rfl

/-- Files share no storage in a run exactly as long as no two of them are
started by one user, in one second, under one sanitised name. -/
theorem paths_distinct_iff (run : Run (monolith collate) history world) :
    (∀ earlier, Visited history world earlier → PathsDistinct earlier) ∧
        (∀ event ∈ history, LeavesOthers event) ↔ TakeOwnPaths history := by
  induction run with
  | start =>
      refine ⟨fun _ => trivial, fun _ => ⟨?_, fun _ membership => (by cases membership)⟩⟩
      rintro earlier (rfl | ⟨_, membership, _⟩)
      · exact fun _ _ _ found => (by cases found)
      · cases membership
  | @next history before action after run stepped inductionHypothesis =>
      obtain ⟨request, outcomes⟩ := action
      have given := run_idsGiven run
      simp only [List.forall_mem_cons]
      constructor
      · rintro ⟨distinct, leaves, earlierLeaves⟩
        refine ⟨(takesOwnPath_iff run).mpr ((paths_step given
          (distinct before (.inr ⟨_, List.mem_cons_self, rfl⟩)) stepped).mp
            ⟨distinct after (.last _ _), leaves⟩), inductionHypothesis.mp ⟨?_, earlierLeaves⟩⟩
        exact fun earlier seen => distinct earlier (seen.next _)
      · rintro ⟨own, earlierOwn⟩
        obtain ⟨distinct, leaves⟩ := inductionHypothesis.mpr earlierOwn
        obtain ⟨distinctAfter, leavesAfter⟩ :=
          (paths_step given (distinct before (.last _ _)) stepped).mpr ((takesOwnPath_iff run).mp own)
        refine ⟨?_, leavesAfter, leaves⟩
        rintro earlier (rfl | ⟨event, membership, rfl⟩)
        · exact distinctAfter
        · rcases List.mem_cons.mp membership with rfl | older
          · exact distinct before (.last _ _)
          · exact distinct event.before (.inr ⟨event, older, rfl⟩)

end Runs

section Collision

/-- Two files of one user with one name, started within one second. -/
def collidingActions : List (Request × List Outcome) :=
  [(.uploadStart 1 [97] 1 [], []), (.uploadStart 1 [97] 2 [], [])]

theorem paths_collide : ¬∀ collate history world,
    Run (monolith collate) history world → PathsDistinct world := by
  intro distinct
  have same := distinct id _ _ ((monolith id).run collidingActions (by decide +kernel)) 1 2
    (generateFilepath 1 [97] default) (by decide +kernel) (by decide +kernel)
  cases same

/-- They are started a second apart, and the first is deleted. -/
def separateActions : List (Request × List Outcome) :=
  [(.uploadStart 1 [97] 1 [], []),
    (.uploadStart 1 [97] 2 [], [{}, {}, { tm := { (default : Tm) with tmSec := 1 } }]),
    (.delete 1 1, [])]

theorem paths_distinct_separate :
    ∃ history world, Run (monolith id) history world ∧
      ((∀ earlier, Visited history world earlier → PathsDistinct earlier) ∧
        (∀ event ∈ history, LeavesOthers event) ↔ TakeOwnPaths history) :=
  have run := (monolith id).run separateActions (by decide +kernel)
  ⟨_, _, run, paths_distinct_iff run⟩

end Collision

end FileServer.Service
