import FileServer.Service.System
import FileServer.Transition.Run

/-!
# Upload progress of one process

`UploadData` writes at any offset and stores the largest end it has seen, and
`UploadFinalize` looks at the size on disk.  The progress is real in runs
without gaps, without writes past the end and without shared paths.
-/

namespace FileServer.Service

open FileServer.Encoding FileServer.Relational FileServer.Sequence FileServer.Transition

abbrev MethodEvent := Event World (Request × List Outcome)

def fileByte (world : World) (filepath : Bytes) (position : Nat) : Option UInt8 :=
  (world.files filepath).bind fun content => content[position]?

theorem fileByte_eq (world : World) (filepath : Bytes) (position : Nat) :
    fileByte world filepath position = ((world.files filepath).getD [])[position]? := by
  rw [fileByte]
  cases world.files filepath <;> rfl

/-- An `UploadData` for the record leaves its byte at the position. -/
def WritesAt (fileId : Int) (filepath : Bytes) (position : Nat) (event : MethodEvent) : Prop :=
  ∃ userId data offset outcomes byte, event.action = (.uploadData fileId userId data offset, outcomes) ∧
    offset.toInt ≤ position ∧ data[position - offset.toInt.toNat]? = some byte ∧
    fileByte event.after filepath position = some byte

def KeepsAt (filepath : Bytes) (position : Nat) (event : MethodEvent) : Prop :=
  fileByte event.after filepath position = fileByte event.before filepath position

/-- The byte at the position is one that an `UploadData` for the record wrote. -/
def Uploaded (history : List MethodEvent) (fileId : Int) (filepath : Bytes) (position : Nat) : Prop :=
  Since (KeepsAt filepath position) (WritesAt fileId filepath position) (fun _ => True) history

def ProgressReal (history : List MethodEvent) (world : World) : Prop :=
  ∀ fileId info, world.fileInfo.get? fileId = some info →
    (info.status = .kUploading → info.uploadSize ≤ info.filesize ∧
      ∀ position : Nat, position < info.uploadSize.toInt →
        Uploaded history fileId info.filepath position) ∧
    (info.status = .kCompleted → ∃ content, world.files info.filepath = some content ∧
      (content.length : Int) = info.filesize.toInt ∧
      ∀ position, position < content.length → Uploaded history fileId info.filepath position)

def second (outcomes : List Outcome) : Outcome := outcomes.tail.headD default
def third (outcomes : List Outcome) : Outcome := outcomes.tail.tail.headD default
def fourth (outcomes : List Outcome) : Outcome := outcomes.tail.tail.tail.headD default

def sizeOf (world : World) (filepath : Bytes) : Nat := ((world.files filepath).getD []).length

/-- What `UploadStart` inserts. -/
def newRow (userId : Int) (filename : Bytes) (filesize : Int64) (md5 : Bytes)
    (outcomes : List Outcome) : FileInfo where
  userId
  filename := sanitizeFilename filename
  filepath := generateFilepath userId (sanitizeFilename filename) (third outcomes).tm
  filesize
  md5

/-- `UploadStart` makes a new record. -/
def Inserts (world : World) (userId : Int) (filename : Bytes) (filesize : Int64) (md5 : Bytes)
    (outcomes : List Outcome) : Prop :=
  ¬(filename = [] ∨ filesize ≤ 0) ∧
    ¬((outcomes.headD default).succeeds = true ∧
      (world.incomplete userId (sanitizeFilename filename) filesize md5).isSome) ∧
    ((fourth outcomes).succeeds = true ∨ (fourth outcomes).applied = true)

/-- `Delete` removes the file of the record. -/
def Removes (world : World) (fileId userId : Int) (outcomes : List Outcome) (info : FileInfo) :
    Prop :=
  (outcomes.headD default).succeeds = true ∧ world.fileInfo.get? fileId = some info ∧
    info.userId = userId ∧ (world.files info.filepath).isSome ∧ (third outcomes).succeeds = true

/-- The write puts bytes into the file, or has none to put. -/
def Outcome.Stores (outcome : Outcome) (data : Bytes) (offset : Int64) : Prop :=
  (outcome.opens = true ∨ outcome.reopens = true) ∧
    (outcome.put data offset ≠ [] ∨
      outcome.seeks = true ∧ outcome.written = none ∧ offset.toInt + data.length < 2 ^ 63)

/-- The chunk leaves no gap, ends within the file, and does not empty it. -/
structure Joins (world : World) (outcome : Outcome) (info : FileInfo) (data : Bytes)
    (offset : Int64) : Prop where
  intact : outcome.opens = true ∨ outcome.creates = false ∨ sizeOf world info.filepath = 0
  joined : 0 ≤ offset.toInt → outcome.Stores data offset →
    offset.toInt ≤ sizeOf world info.filepath ∧
      offset.toInt + (outcome.put data offset).length ≤ info.filesize.toInt

/-- A record that is inserted has a path of its own, a chunk that is written
joins what the file holds, and a file is removed only with its record. -/
def Orderly (event : MethodEvent) : Prop :=
  match event.action with
  | (.uploadStart userId filename filesize md5, outcomes) =>
      Inserts event.before userId filename filesize md5 outcomes →
        let filepath := generateFilepath userId (sanitizeFilename filename) (third outcomes).tm
        event.before.files filepath = none ∧ ∀ fileId info,
          event.before.fileInfo.get? fileId = some info → info.filepath ≠ filepath
  | (.uploadData fileId userId data offset, outcomes) =>
      (outcomes.headD default).succeeds = true → ∀ info,
        event.before.fileInfo.get? fileId = some info → info.userId = userId →
          info.status = .kUploading → Joins event.before (second outcomes) info data offset
  | (.delete fileId userId, outcomes) =>
      ∀ info, Removes event.before fileId userId outcomes info → info.status ≠ .kDeleted →
        (second outcomes).succeeds = true ∨ (second outcomes).applied = true
  | _ => True

section Runs

variable {α β : Type} (outcomes : List Outcome) (world : World)

theorem execute_ask {call : Call} (next : call.Answer → Handler α) :
    execute outcomes world (ask call >>= next) =
      execute outcomes.tail (serve (outcomes.headD default) call world).2
        (next (serve (outcomes.headD default) call world).1) := rfl

theorem execute_pure (value : α) :
    execute outcomes world (pure value : Handler α) = (.ok value, world) := rfl

/-- What is made of the result does not change the world. -/
theorem execute_map (program : Handler α) (f : α → β) :
    (execute outcomes world (program >>= fun value => pure (f value))).2 =
      (execute outcomes world program).2 := by
  show (execute outcomes world (program.bind fun value => pure (f value))).2 = _
  induction program generalizing outcomes world with
  | done result => cases result <;> rfl
  | call call next inductionHypothesis => exact inductionHypothesis _ _ _

end Runs

section Effects

variable {outcomes : List Outcome} {world next : World}

theorem read_findById {outcome : Outcome} {fileId : Int} {info : FileInfo}
    (read : (serve outcome (.findById fileId) world).1 = some info) :
    world.fileInfo.get? fileId = some info := by
  simp only [serve] at read
  split at read
  · exact read
  · cases read

theorem succeeds_of_read {outcome : Outcome} {fileId : Int} {info : FileInfo}
    (read : (serve outcome (.findById fileId) world).1 = some info) : outcome.succeeds = true := by
  rw [serve] at read
  split at read
  next succeeds => exact succeeds
  · cases read

theorem serve_insert_cases (outcome : Outcome) (file : FileInfo) (world : World) :
    (serve outcome (.insert file) world).2 = world ∧
        (world.insertRow file = none ∨ ¬(outcome.succeeds = true ∨ outcome.applied = true)) ∨
      (outcome.succeeds = true ∨ outcome.applied = true) ∧
        ∃ id, world.insertRow file = some (id, (serve outcome (.insert file) world).2) := by
  simp only [serve]
  cases created : world.insertRow file with
  | none => exact .inl ⟨rfl, .inl rfl⟩
  | some pair =>
      obtain ⟨id, inserted⟩ := pair
      simp only
      split
      next succeeds => exact .inr ⟨.inl succeeds, id, rfl⟩
      next fails =>
        split
        next applied => exact .inr ⟨.inr applied, id, rfl⟩
        next ignored => exact .inl ⟨rfl, .inr (not_or.mpr ⟨fails, ignored⟩)⟩

theorem uploadStart_effect {userId : Int} {filename : Bytes} {filesize : Int64} {md5 : Bytes}
    (ran : (execute outcomes world
      (FileService.uploadStart userId filename filesize md5)).2 = next) :
    next = world ∧ (Inserts world userId filename filesize md5 outcomes →
        world.insertRow (newRow userId filename filesize md5 outcomes) = none) ∨
      Inserts world userId filename filesize md5 outcomes ∧
        ∃ id, world.insertRow (newRow userId filename filesize md5 outcomes) = some (id, next) := by
  unfold FileService.uploadStart at ran
  split at ran
  next refused => exact .inl ⟨ran.symm, fun inserts => absurd refused inserts.1⟩
  next accepted =>
  rw [execute_ask] at ran
  cases existing : (serve (outcomes.headD default)
    (.findIncompleteByKey userId (sanitizeFilename filename) filesize md5) world).1 with
  | some row =>
      rw [existing] at ran
      refine .inl ⟨ran.symm, fun inserts => absurd ?_ inserts.2.1⟩
      rw [serve] at existing
      split at existing
      next succeeds =>
        refine ⟨succeeds, ?_⟩
        rw [show world.incomplete userId (sanitizeFilename filename) filesize md5 = some row
          from existing]
        rfl
      · cases existing
  | none =>
      rw [existing] at ran
      simp only at ran
      rw [execute_ask, execute_ask, execute_ask] at ran
      have searched : ¬((outcomes.headD default).succeeds = true ∧
          (world.incomplete userId (sanitizeFilename filename) filesize md5).isSome) := by
        rintro ⟨succeeds, found⟩
        rw [serve, if_pos succeeds] at existing
        rw [show world.incomplete userId (sanitizeFilename filename) filesize md5 = none
          from existing] at found
        cases found
      have inserted : next = (serve (fourth outcomes)
          (.insert (newRow userId filename filesize md5 outcomes)) world).2 := by
        rw [← ran]
        split <;> rfl
      rcases serve_insert_cases (fourth outcomes) (newRow userId filename filesize md5 outcomes)
        world with ⟨same, kept⟩ | ⟨stored, created⟩
      · exact .inl ⟨inserted.trans same, fun inserts =>
          kept.resolve_right (not_not.mpr inserts.2.2)⟩
      · rw [← inserted] at created
        exact .inr ⟨⟨accepted, searched, stored⟩, created⟩

theorem uploadData_effect {fileId userId : Int} {data : Bytes} {offset : Int64}
    (ran : (execute outcomes world (FileService.uploadData fileId userId data offset)).2 = next) :
    next = world ∨ (outcomes.headD default).succeeds = true ∧ ∃ info written chunked,
      world.fileInfo.get? fileId = some info ∧ info.userId = userId ∧ info.status = .kUploading ∧
      world.writeChunk (second outcomes) info.filepath data offset = (written, chunked) ∧
      (next = chunked ∨ 0 ≤ written.toInt ∧
        (offset + written).toInt = offset.toInt + written.toInt ∧
        next = chunked.modifyRow fileId fun row =>
          { row with uploadSize := max info.uploadSize (offset + written) }) := by
  unfold FileService.uploadData at ran
  rw [execute_ask] at ran
  cases read : (serve (outcomes.headD default) (.findById fileId) world).1 with
  | none =>
      rw [read] at ran
      exact .inl ran.symm
  | some info =>
      rw [read] at ran
      simp only at ran
      split at ran
      · exact .inl ran.symm
      next owned =>
      split at ran
      · exact .inl ran.symm
      next uploading =>
      have status : info.status = .kUploading := by
        simpa [FileInfo.isUploading] using uploading
      rw [execute_ask] at ran
      cases chunk : world.writeChunk (second outcomes) info.filepath data offset with
      | mk written chunked =>
          have wrote : serve (outcomes.tail.headD default) (.writeChunk info.filepath data offset)
              world = (written, chunked) := chunk
          refine .inr ⟨succeeds_of_read read, info, written, chunked, read_findById read,
            Classical.not_not.mp owned, status, chunk, ?_⟩
          rw [show (serve (outcomes.headD default) (.findById fileId) world).2 = world from rfl,
            wrote] at ran
          split at ran
          · exact .inl ran.symm
          next accepted =>
          rw [Int64.lt_iff_toInt_lt] at accepted
          cases sum : add offset written with
          | error failure =>
              rw [sum] at ran
              exact .inl ran.symm
          | ok finish =>
              obtain ⟨exactly, rfl⟩ := checkedAdd_ok sum
              rw [sum] at ran
              change (execute _ chunked (ask (.updateUploadSize fileId
                (max info.uploadSize (offset + written))) >>= fun _ => pure written)).2 = next at ran
              rw [execute_ask, execute_pure] at ran
              simp only [serve] at ran
              split at ran
              · exact .inr ⟨Int.not_lt.mp accepted, exactly, ran.symm⟩
              · exact .inl ran.symm

theorem serve_updateUploadSize_cases (outcome : Outcome) (fileId : Int) (uploadSize : Int64)
    (world : World) : (serve outcome (.updateUploadSize fileId uploadSize) world).2 = world ∨
      (serve outcome (.updateUploadSize fileId uploadSize) world).2 =
        world.modifyRow fileId fun info => { info with uploadSize } := by
  simp only [serve]
  split
  · exact .inr rfl
  · exact .inl rfl

theorem serve_updateStatus_cases (outcome : Outcome) (fileId : Int) (status : FileStatus)
    (world : World) :
    ¬(outcome.succeeds = true ∨ outcome.applied = true) ∧
        (serve outcome (.updateStatus fileId status) world).2 = world ∨
      (serve outcome (.updateStatus fileId status) world).2 =
        world.modifyRow fileId fun info => { info with status } := by
  simp only [serve]
  split
  · exact .inr rfl
  next ignored => exact .inl ⟨ignored, rfl⟩

theorem getFileSize_of_le {outcome : Outcome} {filepath : Bytes} {filesize : Int64}
    (nonneg : 0 ≤ filesize.toInt)
    (large : ¬(serve outcome (.getFileSize filepath) world).1 < filesize) :
    ∃ content, world.files filepath = some content ∧
      filesize.toInt ≤ (Int64.ofNat content.length).toInt := by
  have failed : (-1 : Int64) < filesize := by
    rw [Int64.lt_iff_toInt_lt]
    exact lt_of_lt_of_le (by decide) nonneg
  simp only [serve] at large
  cases stored : world.files filepath with
  | none =>
      rw [stored] at large
      exact absurd failed large
  | some content =>
      rw [stored] at large
      simp only at large
      split at large
      · rw [Int64.lt_iff_toInt_lt] at large
        exact ⟨content, rfl, Int.not_lt.mp large⟩
      · exact absurd failed large

theorem uploadFinalize_effect {fileId userId : Int}
    (sized : ∀ info, world.fileInfo.get? fileId = some info → 0 ≤ info.filesize.toInt)
    (ran : (execute outcomes world (FileService.uploadFinalize fileId userId)).2 = next) :
    next = world ∨ ∃ info content, world.fileInfo.get? fileId = some info ∧
      world.files info.filepath = some content ∧
      info.filesize.toInt ≤ (Int64.ofNat content.length).toInt ∧ next.files = world.files ∧
      (∀ other, other ≠ fileId → next.fileInfo.get? other = world.fileInfo.get? other) ∧
      ∃ status uploadSize, next.fileInfo.get? fileId = some { info with status, uploadSize } ∧
        (status = info.status ∨ status = .kCompleted) ∧
        (uploadSize = info.uploadSize ∨ uploadSize = info.filesize) := by
  unfold FileService.uploadFinalize at ran
  rw [execute_ask] at ran
  cases read : (serve (outcomes.headD default) (.findById fileId) world).1 with
  | none =>
      rw [read] at ran
      exact .inl ran.symm
  | some info =>
      rw [read] at ran
      simp only at ran
      split at ran
      · exact .inl ran.symm
      rw [execute_ask] at ran
      split at ran
      · exact .inl ran.symm
      next large =>
      rw [execute_ask, execute_ask, execute_pure] at ran
      have found := read_findById read
      obtain ⟨content, stored, enough⟩ := getFileSize_of_le (sized info found) large
      refine .inr ⟨info, content, found, stored, enough, ?_⟩
      have ran : (serve (outcomes.tail.tail.tail.headD default)
          (.updateUploadSize fileId info.filesize)
          (serve (outcomes.tail.tail.headD default) (.updateStatus fileId .kCompleted)
            world).2).2 = next := ran
      have row : ∀ (world : World) (f : FileInfo → FileInfo) (other : Int),
          (world.modifyRow fileId f).fileInfo.get? other =
            if other = fileId then (world.fileInfo.get? other).map f
            else world.fileInfo.get? other := fun world f other => Table.get?_modify _ _ _ _
      rcases serve_updateUploadSize_cases (outcomes.tail.tail.tail.headD default) fileId info.filesize
          (serve (outcomes.tail.tail.headD default) (.updateStatus fileId .kCompleted) world).2
        with size | size <;>
      rcases serve_updateStatus_cases (outcomes.tail.tail.headD default) fileId .kCompleted world
        with ⟨_, status⟩ | status <;>
      rw [size, status] at ran <;> subst ran
      · exact ⟨rfl, fun _ _ => rfl, _, _, found, .inl rfl, .inl rfl⟩
      · refine ⟨rfl, fun other different => by rw [row, if_neg different], .kCompleted, info.uploadSize,
          ?_, .inr rfl, .inl rfl⟩
        rw [row, if_pos rfl, found]
        rfl
      · refine ⟨rfl, fun other different => by rw [row, if_neg different], info.status, info.filesize,
          ?_, .inl rfl, .inr rfl⟩
        rw [row, if_pos rfl, found]
        rfl
      · refine ⟨rfl, fun other different => by
          rw [row, if_neg different, row, if_neg different], .kCompleted, info.filesize, ?_, .inr rfl,
          .inr rfl⟩
        rw [row, if_pos rfl, row, if_pos rfl, found]
        rfl

theorem delete_effect {fileId userId : Int}
    (ran : (execute outcomes world (FileService.delete fileId userId)).2 = next) :
    next = world ∨ ∃ info marked, world.fileInfo.get? fileId = some info ∧
      (¬((second outcomes).succeeds = true ∨ (second outcomes).applied = true) ∧ marked = world ∨
        marked = world.modifyRow fileId fun info => { info with status := .kDeleted }) ∧
      (next = marked ∨ Removes world fileId userId outcomes info ∧
        next = marked.setFile info.filepath none) := by
  unfold FileService.delete at ran
  rw [execute_ask] at ran
  cases read : (serve (outcomes.headD default) (.findById fileId) world).1 with
  | none =>
      rw [read] at ran
      exact .inl ran.symm
  | some info =>
      rw [read] at ran
      simp only at ran
      split at ran
      · exact .inl ran.symm
      next owned =>
      rw [execute_ask, execute_ask, execute_pure] at ran
      have marks := serve_updateStatus_cases (second outcomes) fileId .kDeleted world
      have ran : (serve (third outcomes) (.deleteFile info.filepath)
          (serve (second outcomes) (.updateStatus fileId .kDeleted) world).2).2 = next := ran
      generalize (serve (second outcomes) (.updateStatus fileId .kDeleted) world).2 = marked
        at ran marks
      refine .inr ⟨info, marked, read_findById read, marks, ?_⟩
      have files : marked.files = world.files := by
        rcases marks with ⟨_, rfl⟩ | rfl <;> rfl
      simp only [serve, files] at ran
      split at ran
      next removed =>
        exact .inr ⟨⟨succeeds_of_read read, read_findById read, Classical.not_not.mp owned,
          removed⟩, ran.symm⟩
      · exact .inl ran.symm

theorem insertRow_rows {file : FileInfo} {id : Int} (inserted : world.insertRow file = some (id, next)) :
    (∀ other, next.fileInfo.get? other =
      if other = id then some file else world.fileInfo.get? other) ∧ next.files = world.files := by
  obtain ⟨fresh, rfl, rfl⟩ := insertRow_eq_some.mp inserted
  exact ⟨fun other => Table.get?_insertNew _ _ _ _ fresh, rfl⟩

end Effects

structure RowReal (history : List MethodEvent) (world : World) (fileId : Int) (info : FileInfo) :
    Prop where
  nonneg : 0 ≤ info.filesize.toInt
  progress : info.uploadSize.toInt ≤ info.filesize.toInt
  bounded : (sizeOf world info.filepath : Int) ≤ info.filesize.toInt
  uploaded : ∀ position, position < sizeOf world info.filepath →
    Uploaded history fileId info.filepath position
  reached : info.status ≠ .kDeleted → info.uploadSize.toInt ≤ sizeOf world info.filepath
  complete : info.status = .kCompleted → ∃ content, world.files info.filepath = some content ∧
    (content.length : Int) = info.filesize.toInt

structure Real (history : List MethodEvent) (world : World) : Prop where
  rows : ∀ fileId info, world.fileInfo.get? fileId = some info →
    RowReal history world fileId info
  distinct : ∀ fileId other info info', world.fileInfo.get? fileId = some info →
    world.fileInfo.get? other = some info' → info.filepath = info'.filepath → fileId = other

section Steps

variable {history : List MethodEvent} {world next : World} {request : Request}
  {outcomes : List Outcome} {fileId : Int} {info : FileInfo}

theorem Uploaded.keep {filepath : Bytes} {position : Nat}
    (uploaded : Uploaded history fileId filepath position)
    (same : fileByte next filepath position = fileByte world filepath position) :
    Uploaded (⟨world, (request, outcomes), next⟩ :: history) fileId filepath position :=
  .inr ⟨same, uploaded⟩

theorem RowReal.keep (real : RowReal history world fileId info) {info' : FileInfo}
    (files : next.files info.filepath = world.files info.filepath)
    (path : info'.filepath = info.filepath) (size : info'.filesize = info.filesize)
    (progress : info'.uploadSize.toInt ≤ info.filesize.toInt)
    (reached : info'.status ≠ .kDeleted → info'.uploadSize.toInt ≤ sizeOf world info.filepath)
    (complete : info'.status = .kCompleted → ∃ content,
      world.files info.filepath = some content ∧ (content.length : Int) = info.filesize.toInt) :
    RowReal (⟨world, (request, outcomes), next⟩ :: history) next fileId info' := by
  have sizes : sizeOf next info.filepath = sizeOf world info.filepath := by
    rw [sizeOf, files, sizeOf]
  constructor
  · rw [size]
    exact real.nonneg
  · rw [size]
    exact progress
  · rw [path, size, sizes]
    exact real.bounded
  · intro position below
    rw [path, sizes] at below
    rw [path]
    exact (real.uploaded position below).keep (by rw [fileByte, files, fileByte])
  · rw [path, sizes]
    exact reached
  · rw [path, size, files]
    exact complete

theorem RowReal.same (real : RowReal history world fileId info)
    (files : next.files info.filepath = world.files info.filepath) :
    RowReal (⟨world, (request, outcomes), next⟩ :: history) next fileId info :=
  real.keep files rfl rfl real.progress real.reached real.complete

theorem Real.same (real : Real history world) :
    Real (⟨world, (request, outcomes), world⟩ :: history) world :=
  ⟨fun fileId info found => (real.rows fileId info found).same rfl, real.distinct⟩

theorem Real.start (real : Real history world) {id : Int}
    (unused : world.files info.filepath = none)
    (fresh : ∀ fileId other, world.fileInfo.get? fileId = some other →
      other.filepath ≠ info.filepath)
    (zero : info.uploadSize = 0) (uploading : info.status = .kUploading)
    (nonneg : 0 ≤ info.filesize.toInt) (inserted : world.insertRow info = some (id, next)) :
    Real (⟨world, (request, outcomes), next⟩ :: history) next := by
  obtain ⟨rows, files⟩ := insertRow_rows inserted
  have empty : sizeOf next info.filepath = 0 := by
    rw [sizeOf, files, unused]
    rfl
  constructor
  · intro fileId row found
    rw [rows] at found
    split at found
    · obtain rfl := Option.some.inj found
      constructor
      · exact nonneg
      · rw [zero]
        exact nonneg
      · rw [empty]
        exact nonneg
      · intro position below
        rw [empty] at below
        cases below
      · intro _
        rw [empty, zero]
        rfl
      · rw [uploading]
        exact fun completed => absurd completed (by decide)
    · exact (real.rows fileId row found).same (congrFun files _)
  · intro fileId other row row' found found' path
    rw [rows] at found found'
    split at found
    next here =>
      obtain rfl := Option.some.inj found
      split at found'
      next there => rw [here, there]
      · exact absurd path.symm (fresh other row' found')
    next elsewhere =>
      split at found'
      next there =>
        obtain rfl := Option.some.inj found'
        exact absurd path (fresh fileId row found)
      · exact real.distinct fileId other row row' found found' path

theorem Real.update (real : Real history world) {info' : FileInfo}
    (found : world.fileInfo.get? fileId = some info)
    (row : next.fileInfo.get? fileId = some info') (path : info'.filepath = info.filepath)
    (others : ∀ other, other ≠ fileId → next.fileInfo.get? other = world.fileInfo.get? other)
    (files : ∀ filepath, filepath ≠ info.filepath → next.files filepath = world.files filepath)
    (changed : RowReal (⟨world, (request, outcomes), next⟩ :: history) next fileId info') :
    Real (⟨world, (request, outcomes), next⟩ :: history) next := by
  have back : ∀ other row', next.fileInfo.get? other = some row' →
      ∃ old, world.fileInfo.get? other = some old ∧ old.filepath = row'.filepath := by
    intro other row' found'
    by_cases same : other = fileId
    · subst same
      obtain rfl := Option.some.inj (row.symm.trans found')
      exact ⟨info, found, path.symm⟩
    · rw [others other same] at found'
      exact ⟨row', found', rfl⟩
  constructor
  · intro other row' found'
    by_cases same : other = fileId
    · subst same
      obtain rfl := Option.some.inj (row.symm.trans found')
      exact changed
    · rw [others other same] at found'
      refine (real.rows other row' found').same (files _ ?_)
      exact fun shared => same (real.distinct other fileId row' info found' found shared)
  · intro first second firstRow secondRow foundFirst foundSecond shared
    obtain ⟨firstOld, firstFound, firstPath⟩ := back first firstRow foundFirst
    obtain ⟨secondOld, secondFound, secondPath⟩ := back second secondRow foundSecond
    exact real.distinct first second firstOld secondOld firstFound secondFound
      (by rw [firstPath, secondPath, shared])

theorem RowReal.overlay (real : RowReal history world fileId info) {userId : Int}
    {data part content : Bytes} {offset : Int64}
    (stored : (world.files info.filepath).getD [] = content) (prefixed : part <+: data)
    (sought : 0 ≤ offset.toInt) (joined : offset.toInt ≤ content.length)
    (written : next.files info.filepath = some (overlay 0 content offset.toInt.toNat part))
    {position : Nat} (below : position < (overlay 0 content offset.toInt.toNat part).length) :
    Uploaded (⟨world, (.uploadData fileId userId data offset, outcomes), next⟩ :: history) fileId
      info.filepath position := by
  obtain ⟨rest, rfl⟩ := prefixed
  have after : fileByte next info.filepath position =
      (Sequence.overlay 0 content offset.toInt.toNat part)[position]? := by
    rw [fileByte, written, Option.bind_some]
  rcases overlay_cases 0 content offset.toInt.toNat (by omega) below with
    ⟨low, high⟩ | ⟨present, outside⟩
  · have inPart : position - offset.toInt.toNat < part.length := by omega
    rw [getElem?_overlay_of_mem _ _ _ low high, List.getElem?_eq_getElem inPart] at after
    refine .inl ⟨⟨userId, _, offset, outcomes, _, rfl, by omega, ?_, after⟩, trivial⟩
    rw [List.getElem?_append_left inPart, List.getElem?_eq_getElem inPart]
  · have before : fileByte world info.filepath position = content[position]? := by
      rw [fileByte_eq, stored]
    refine (real.uploaded position (by rw [sizeOf, stored]; exact present)).keep ?_
    rw [after, before, getElem?_overlay_of_not_mem _ _ _ present outside]

theorem RowReal.chunk (real : RowReal history world fileId info) (userId : Int) {data : Bytes}
    {offset written : Int64} {chunked : World}
    (joins : Joins world (second outcomes) info data offset)
    (chunk : world.writeChunk (second outcomes) info.filepath data offset = (written, chunked))
    (files : next.files = chunked.files) :
    (∀ position, position < sizeOf next info.filepath →
      Uploaded (⟨world, (.uploadData fileId userId data offset, outcomes), next⟩ :: history) fileId
        info.filepath position) ∧
      (sizeOf next info.filepath : Int) ≤ info.filesize.toInt ∧
      sizeOf world info.filepath ≤ sizeOf next info.filepath ∧
      (0 ≤ written.toInt → offset.toInt + written.toInt ≤ sizeOf next info.filepath) := by
  have result := writeChunk_written world (second outcomes) info.filepath data offset
  rw [chunk] at result
  have content : ∀ start, Opened world (second outcomes) info.filepath start →
      (world.files info.filepath).getD [] = start := by
    rintro start (found | ⟨rfl, creates, missing | shut⟩)
    · rw [found]
      rfl
    · rw [missing]
      rfl
    · rcases joins.intact with open' | kept | empty
      · rw [open'] at shut
        cases shut
      · rw [creates] at kept
        cases kept
      · exact List.eq_nil_of_length_eq_zero empty
  have failed : ¬0 ≤ Int64.toInt (-1) := by decide
  have kept : (next.files info.filepath).getD [] = (world.files info.filepath).getD [] →
      (∀ position, position < sizeOf next info.filepath →
        Uploaded (⟨world, (.uploadData fileId userId data offset, outcomes), next⟩ :: history)
          fileId info.filepath position) ∧
        (sizeOf next info.filepath : Int) ≤ info.filesize.toInt ∧
        sizeOf world info.filepath ≤ sizeOf next info.filepath := by
    intro same
    have sizes : sizeOf next info.filepath = sizeOf world info.filepath := by
      rw [sizeOf, same, sizeOf]
    rw [sizes]
    exact ⟨fun position below => (real.uploaded position below).keep (by
      rw [fileByte_eq, fileByte_eq, same]), real.bounded, le_refl _⟩
  have covered : ∀ start, Opened world (second outcomes) info.filepath start →
      0 ≤ offset.toInt → (second outcomes).Stores data offset →
      chunked.files info.filepath = some (Sequence.overlay 0 start offset.toInt.toNat
        ((second outcomes).put data offset)) →
      (∀ position, position < sizeOf next info.filepath →
        Uploaded (⟨world, (.uploadData fileId userId data offset, outcomes), next⟩ :: history)
          fileId info.filepath position) ∧
        (sizeOf next info.filepath : Int) ≤ info.filesize.toInt ∧
        sizeOf world info.filepath ≤ sizeOf next info.filepath ∧
        offset.toInt + ((second outcomes).put data offset).length ≤ sizeOf next info.filepath := by
    intro start opened sought stores placed
    have stored := content start opened
    have size : sizeOf world info.filepath = start.length := by rw [sizeOf, stored]
    obtain ⟨inFile, fits⟩ := joins.joined sought stores
    have prefixed := (second outcomes).put_begins data offset
    generalize (second outcomes).put data offset = part at placed fits prefixed ⊢
    rw [size] at inFile ⊢
    have whole : next.files info.filepath =
        some (Sequence.overlay 0 start offset.toInt.toNat part) := by
      rw [files]
      exact placed
    have long : sizeOf next info.filepath =
        (Sequence.overlay 0 start offset.toInt.toNat part).length := by
      rw [sizeOf, whole]
      rfl
    rw [long]
    have bounded := real.bounded
    rw [size] at bounded
    refine ⟨fun position below => real.overlay stored prefixed sought inFile whole below, ?_,
      length_le_overlay _ _ _ _, ?_⟩
    · by_cases something : part = []
      · rw [something, overlay_nil]
        exact bounded
      · rw [length_overlay _ _ _ something]
        omega
    · by_cases something : part = []
      · rw [something, overlay_nil, List.length_nil]
        omega
      · rw [length_overlay _ _ _ something]
        omega
  cases result with
  | unopened =>
      obtain ⟨uploaded, bounded, grows⟩ := kept (by rw [files])
      exact ⟨uploaded, bounded, grows, fun accepted => absurd accepted failed⟩
  | opened start opened =>
      obtain ⟨uploaded, bounded, grows⟩ := kept (by
        rw [files, files_setFile, if_pos rfl, content start opened]
        rfl)
      exact ⟨uploaded, bounded, grows, fun accepted => absurd accepted failed⟩
  | part start opened ready sought =>
      by_cases something : (second outcomes).put data offset = []
      · obtain ⟨uploaded, bounded, grows⟩ := kept (by
          rw [files, files_setFile, if_pos rfl, content start opened, something, overlay_nil]
          rfl)
        exact ⟨uploaded, bounded, grows, fun accepted => absurd accepted failed⟩
      · obtain ⟨uploaded, bounded, grows, _⟩ := covered start opened sought
          ⟨ready, .inl something⟩ (by rw [files_setFile, if_pos rfl])
        exact ⟨uploaded, bounded, grows, fun accepted => absurd accepted failed⟩
  | whole start opened ready sought fits seeks all put =>
      obtain ⟨uploaded, bounded, grows, ends⟩ := covered start opened sought
        ⟨ready, .inr ⟨seeks, all, fits⟩⟩ (by rw [files_setFile, if_pos rfl, put])
      have length : (Int64.ofNat data.length).toInt = data.length :=
        Int64.toInt_ofNat_of_lt (by omega)
      rw [put] at ends
      exact ⟨uploaded, bounded, grows, fun _ => by rw [length]; exact ends⟩

theorem Real.uploadData (real : Real history world) {userId : Int} {data : Bytes} {offset : Int64}
    (orderly : Orderly ⟨world, (.uploadData fileId userId data offset, outcomes), next⟩)
    (ran : (execute outcomes world (FileService.uploadData fileId userId data offset)).2 = next) :
    Real (⟨world, (.uploadData fileId userId data offset, outcomes), next⟩ :: history) next := by
  rcases uploadData_effect ran with
    rfl | ⟨succeeds, info, written, chunked, found, owned, uploading, chunk, stored⟩
  · exact real.same
  have row := real.rows fileId info found
  have joins := orderly succeeds info found owned uploading
  have infos : chunked.fileInfo = world.fileInfo := by
    have same := fileInfo_writeChunk world (second outcomes) info.filepath data offset
    rwa [chunk] at same
  have files : next.files = chunked.files := by
    rcases stored with rfl | ⟨_, _, rfl⟩ <;> rfl
  have others : ∀ filepath, filepath ≠ info.filepath → next.files filepath = world.files filepath := by
    intro filepath different
    have same := files_writeChunk_of_ne world (second outcomes) data offset different
    rw [chunk] at same
    rw [files]
    exact same
  obtain ⟨uploaded, bounded, grows, ends⟩ := row.chunk userId joins chunk files
  have reached := row.reached (by rw [uploading]; decide)
  have unfinished : ∀ status, status = info.status → status ≠ .kCompleted := by
    rintro status rfl
    rw [uploading]
    decide
  rcases stored with rfl | ⟨accepted, exactly, rfl⟩
  · refine real.update found (by rw [infos]; exact found) rfl (fun other _ => by rw [infos]) others ?_
    exact ⟨row.nonneg, row.progress, bounded, uploaded, fun _ => by omega,
      fun completed => absurd completed (unfinished _ rfl)⟩
  · have ended := ends accepted
    have raised := max_toInt info.uploadSize (offset + written)
    rw [exactly] at raised
    have updated : (chunked.modifyRow fileId fun row =>
        { row with uploadSize := max info.uploadSize (offset + written) }).fileInfo.get? fileId =
          some { info with uploadSize := max info.uploadSize (offset + written) } := by
      rw [World.modifyRow, Table.get?_modify_self, infos, found]
      rfl
    refine real.update found updated rfl ?_ others ?_
    · intro other different
      rw [World.modifyRow, Table.get?_modify_of_ne _ _ different, infos]
    · refine ⟨row.nonneg, ?_, bounded, uploaded, fun _ => ?_,
        fun completed => absurd completed (unfinished _ rfl)⟩
      · show (max info.uploadSize (offset + written)).toInt ≤ _
        rw [raised]
        exact max_le row.progress (ended.trans bounded)
      · show (max info.uploadSize (offset + written)).toInt ≤ _
        rw [raised]
        exact max_le (reached.trans (Int.ofNat_le.mpr grows)) ended

theorem Real.uploadFinalize (real : Real history world) {userId : Int}
    (ran : (execute outcomes world (FileService.uploadFinalize fileId userId)).2 = next) :
    Real (⟨world, (.uploadFinalize fileId userId, outcomes), next⟩ :: history) next := by
  rcases uploadFinalize_effect (fun info found => (real.rows fileId info found).nonneg) ran with
    rfl | ⟨info, content, found, stored, enough, files, others, status, uploadSize, updated, statuses,
      sizes⟩
  · exact real.same
  have row := real.rows fileId info found
  have size : sizeOf world info.filepath = content.length := by
    rw [sizeOf, stored]
    rfl
  have bounded := row.bounded
  have top := info.filesize.toInt_lt
  rw [size] at bounded
  rw [Int64.toInt_ofNat_of_lt (by omega)] at enough
  refine real.update found updated rfl others (fun filepath _ => by rw [files]) ?_
  refine row.keep (by rw [files]) rfl rfl ?_ (fun _ => ?_) fun _ => ⟨content, stored, by omega⟩
  · rcases sizes with rfl | rfl
    · exact row.progress
    · exact le_refl _
  · rw [size]
    show uploadSize.toInt ≤ _
    rcases sizes with rfl | rfl
    · have progress := row.progress
      omega
    · exact enough

theorem Real.delete (real : Real history world) {userId : Int}
    (orderly : Orderly ⟨world, (.delete fileId userId, outcomes), next⟩)
    (ran : (execute outcomes world (FileService.delete fileId userId)).2 = next) :
    Real (⟨world, (.delete fileId userId, outcomes), next⟩ :: history) next := by
  rcases delete_effect ran with rfl | ⟨info, marked, found, marks, removes⟩
  · exact real.same
  have row := real.rows fileId info found
  have files : marked.files = world.files := by
    rcases marks with ⟨_, rfl⟩ | rfl <;> rfl
  have others : ∀ other, other ≠ fileId →
      marked.fileInfo.get? other = world.fileInfo.get? other := by
    rcases marks with ⟨_, rfl⟩ | rfl
    · exact fun _ _ => rfl
    · exact fun other different => Table.get?_modify_of_ne _ _ different
  have modified : (world.modifyRow fileId fun info => { info with status := .kDeleted }).fileInfo.get?
      fileId = some { info with status := .kDeleted } := by
    rw [World.modifyRow, Table.get?_modify_self, found]
    rfl
  rcases removes with rfl | ⟨removes, rfl⟩
  · rcases marks with ⟨_, rfl⟩ | rfl
    · exact real.same
    · refine real.update found modified rfl others (fun _ _ => rfl) ?_
      exact row.keep rfl rfl rfl row.progress (fun kept => absurd rfl kept)
        fun completed => absurd completed (by simp)
  · have updated : marked.fileInfo.get? fileId = some { info with status := .kDeleted } := by
      rcases marks with ⟨ignored, rfl⟩ | rfl
      · have deleted : info.status = .kDeleted := by
          by_contra live
          exact ignored (orderly info removes live)
        rw [found, ← deleted]
      · exact modified
    have empty : sizeOf (marked.setFile info.filepath none) info.filepath = 0 := by
      rw [sizeOf, files_setFile, if_pos rfl]
      rfl
    refine real.update found updated rfl others (fun filepath different => ?_) ?_
    · rw [files_setFile, if_neg different, files]
    · constructor
      · exact row.nonneg
      · exact row.progress
      · rw [empty]
        exact row.nonneg
      · intro position below
        rw [empty] at below
        cases below
      · exact fun kept => absurd rfl kept
      · exact fun completed => absurd completed (by simp)

theorem Real.step (real : Real history world)
    (stepped : (monolith collate).step world (request, outcomes) = some next)
    (orderly : Orderly ⟨world, (request, outcomes), next⟩) :
    Real (⟨world, (request, outcomes), next⟩ :: history) next := by
  simp only [monolith] at stepped
  split at stepped
  next method =>
    have ran : (execute outcomes world (handler request)).2 = next := Option.some.inj stepped
    cases request with
    | uploadStart userId filename filesize md5 =>
        rw [handler, execute_map] at ran
        rcases uploadStart_effect ran with ⟨rfl, _⟩ | ⟨inserts, id, inserted⟩
        · exact real.same
        obtain ⟨unused, fresh⟩ := orderly inserts
        have nonneg : 0 ≤ filesize.toInt := by
          by_contra negative
          exact inserts.1 (.inr (Int64.le_iff_toInt_le.mpr (Int.le_of_lt (Int.not_le.mp negative))))
        exact real.start unused fresh rfl rfl nonneg inserted
    | uploadData fileId userId data offset =>
        rw [handler, execute_map] at ran
        exact real.uploadData orderly ran
    | uploadFinalize fileId userId =>
        rw [handler, execute_map] at ran
        exact real.uploadFinalize ran
    | delete fileId userId =>
        rw [handler, execute_map] at ran
        exact real.delete orderly ran
    | prepareUploadChunk | confirmUploadChunk | finalizeUpload | writeChunk => cases method
  · cases stepped

end Steps

/-- In a run whose steps are orderly the progress of every record is real. -/
theorem progress_real {history : List MethodEvent} {world : World}
    (run : Run (monolith collate) history world) (orderly : ∀ event ∈ history, Orderly event) :
    ProgressReal history world := by
  have real : Real history world := by
    induction run with
    | start => exact ⟨fun _ _ found => (by cases found), fun _ _ _ _ found => (by cases found)⟩
    | @next history before action after run stepped inductionHypothesis =>
        obtain ⟨request, outcomes⟩ := action
        exact (inductionHypothesis fun event older => orderly event (List.mem_cons_of_mem _ older)).step
          stepped (orderly _ List.mem_cons_self)
  intro fileId info found
  have row := real.rows fileId info found
  constructor
  · intro uploading
    have reached := row.reached (by rw [uploading]; decide)
    exact ⟨Int64.le_iff_toInt_le.mpr row.progress, fun position below =>
      row.uploaded position (by omega)⟩
  · intro completed
    obtain ⟨content, stored, whole⟩ := row.complete completed
    refine ⟨content, stored, whole, fun position below => row.uploaded position ?_⟩
    rw [sizeOf, stored]
    exact below

section Complete

def started : World :=
  ((monolith id).step (emptyWorld id) (.uploadStart 1 [97] 2 [], [])).get (by decide +kernel)

def filled : World := ((monolith id).step started (.uploadData 1 1 [7, 8] 0, [])).get (by decide +kernel)

def finished : World := ((monolith id).step filled (.uploadFinalize 1 1, [])).get (by decide +kernel)

/-- A file that is uploaded in one piece. -/
theorem progress_real_finished :
    (finished.fileInfo.get? 1).map FileInfo.status = some .kCompleted ∧
      ProgressReal [⟨filled, (.uploadFinalize 1 1, []), finished⟩,
        ⟨started, (.uploadData 1 1 [7, 8] 0, []), filled⟩,
        ⟨(emptyWorld id), (.uploadStart 1 [97] 2 [], []), started⟩] finished := by
  refine ⟨by decide +kernel, progress_real (((Run.start.next (Option.some_get _).symm).next
    (Option.some_get _).symm).next (Option.some_get _).symm) ?_⟩
  simp only [List.forall_mem_cons]
  refine ⟨trivial, ?_, fun _ => ⟨rfl, fun _ _ found => (by cases found)⟩, by simp⟩
  intro _ info found _ _
  have size : (started.fileInfo.get? 1).map FileInfo.filesize = some 2 := by decide +kernel
  rw [found] at size
  have filesize : info.filesize = 2 := Option.some.inj size
  refine ⟨.inl rfl, fun _ _ => ⟨Int.natCast_nonneg _, ?_⟩⟩
  rw [filesize]
  decide

end Complete

section Gap

def gapActions : List (Request × List Outcome) :=
  [(.uploadStart 1 [97] 2 [], []), (.uploadData 1 1 [7] 1, [])]

/-- A chunk past the start raises the progress over a byte that was never
written. -/
theorem progress_skips : ¬∀ collate history world, Run (monolith collate) history world →
    ProgressReal history world := by
  intro real
  have progress := real id _ _ ((monolith id).run gapActions (by decide +kernel))
  have row : ((((monolith id).execute (monolith id).initial gapActions).get (by decide +kernel)).fileInfo.get?
      1).map (fun info => (info.status, info.uploadSize)) = some (.kUploading, 2) := by
    decide +kernel
  obtain ⟨info, found, fields⟩ := Option.map_eq_some_iff.mp row
  simp only [Prod.mk.injEq] at fields
  have uploaded := ((progress 1 info found).1 fields.1).2 0 (by rw [fields.2]; decide)
  obtain ⟨later, event, earlier, split, ⟨userId, data, offset, outcomes, byte, action, low, _⟩, _⟩ :=
    since_iff.mp uploaded
  have listed := System.action_mem_of_mem_events
    (show event ∈ _ by rw [split]; simp)
  rw [action] at listed
  simp only [gapActions, List.mem_cons, Prod.mk.injEq, List.not_mem_nil, or_false] at listed
  rcases listed with ⟨other, _⟩ | ⟨same, _⟩
  · cases other
  · obtain ⟨_, _, _, rfl⟩ := Request.uploadData.inj same
    exact absurd low (by decide)

end Gap

end FileServer.Service
