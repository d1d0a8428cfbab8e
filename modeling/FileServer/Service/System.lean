import FileServer.Service.Handlers

/-!
# The processes

In one process the methods of `FileService` run to their end one at a time, or
concurrently on a thread pool.  As microservices the gateway reaches the
FileService and StorageService processes by RPCs that may be lost or time out.
-/

namespace FileServer.Service

open FileServer.Relational FileServer.Sequence FileServer.Transition

def emptyWorld (collate : Bytes → Bytes) : World := ⟨collate, .empty, 0, fun _ => none⟩

/-- `code` of an RPC without a connection, or after the timeout. -/
def lost (timedOut : Bool) : Reply := { code := if timedOut then -3 else -1 }

/-- The processes, when clients issue the given requests without the
`upload_data` handler of the gateway. -/
def processes (collate : Bytes → Bytes) (direct : Request → Bool) :
    Deployment Request UploadData Call Call.Answer Outcome World Failure Reply where
  serve
  handler
  refusal _ := { code := -1 }
  front := uploadData
  lost
  direct
  initial := emptyWorld collate

def forwarded : Request → Bool
  | .uploadStart .. | .finalizeUpload .. | .delete .. => true
  | _ => false

def microservices (collate : Bytes → Bytes) := processes collate forwarded

/-- The requests of `FileService` in one process. -/
def isMethod : Request → Bool
  | .uploadStart .. | .uploadData .. | .uploadFinalize .. | .delete .. => true
  | _ => false

def execute {α : Type} (outcomes : List Outcome) (world : World) (program : Handler α) :
    Except Failure α × World :=
  (processes id isMethod).run outcomes program world

/-- The methods of `FileService`, executed one at a time. -/
def monolith (collate : Bytes → Bytes) : System World (Request × List Outcome) where
  initial := emptyWorld collate
  step world := fun (request, outcomes) =>
    if isMethod request then some (execute outcomes world (handler request)).2 else none

theorem insertRow_eq_some {world next : World} {file : FileInfo} {id : Int} :
    world.insertRow file = some (id, next) ↔
      ∃ fresh : world.fileInfo.get? (world.lastInsertId + 1) = none,
        id = world.lastInsertId + 1 ∧
          next = { world with
            fileInfo := world.fileInfo.insertNew (world.lastInsertId + 1) file fresh
            lastInsertId := world.lastInsertId + 1 } := by
  simp only [World.insertRow, Option.map_eq_some_iff, Table.insert?_eq_some, Prod.mk.injEq]
  constructor
  · rintro ⟨_, ⟨fresh, rfl⟩, rfl, rfl⟩
    exact ⟨fresh, rfl, rfl⟩
  · rintro ⟨fresh, rfl, rfl⟩
    exact ⟨_, ⟨fresh, rfl⟩, rfl, rfl⟩

theorem files_setFile (world : World) (filepath path : Bytes) (content : Option Bytes) :
    (world.setFile filepath content).files path =
      if path = filepath then content else world.files path := rfl

theorem setFile_self {world : World} {filepath : Bytes} {content : Option Bytes}
    (stands : world.files filepath = content) : world.setFile filepath content = world := by
  have same : (fun path => if path = filepath then content else world.files path) =
      world.files := by
    funext path
    split
    next here => rw [here, stands]
    · rfl
  rw [World.setFile, same]

theorem setFile_setFile (world : World) (filepath : Bytes) (first second : Option Bytes) :
    (world.setFile filepath first).setFile filepath second = world.setFile filepath second := by
  simp only [World.setFile, World.mk.injEq, true_and]
  funext path
  split <;> rfl

/-- The content that a chunk is written over: that of the file, unless it did
not exist or could not be opened. -/
def Opened (world : World) (outcome : Outcome) (filepath start : Bytes) : Prop :=
  world.files filepath = some start ∨
    start = [] ∧ outcome.creates = true ∧ (world.files filepath = none ∨ outcome.opens = false)

theorem openChunk_cases (world : World) (outcome : Outcome) (filepath : Bytes) :
    world.openChunk outcome filepath = (false, world) ∨
      ∃ start, Opened world outcome filepath start ∧
        ∃ opened, world.openChunk outcome filepath =
            (opened, world.setFile filepath (some start)) ∧
          (opened = true → outcome.opens = true ∨ outcome.reopens = true) := by
  simp only [World.openChunk]
  split
  next existing =>
    obtain ⟨start, found⟩ := Option.isSome_iff_exists.mp existing.1
    exact .inr ⟨start, .inl found, true, by rw [setFile_self found], fun _ => .inl existing.2⟩
  next unopened =>
    split
    next creates =>
      refine .inr ⟨[], .inr ⟨rfl, creates, ?_⟩, _, rfl, fun opened => .inr (by simp_all)⟩
      cases found : world.files filepath with
      | none => exact .inl rfl
      | some content => exact .inr (by simpa [found] using unopened)
    · cases found : world.files filepath with
      | none => exact .inl (by simp)
      | some content =>
          exact .inr ⟨content, .inl found, _, by rw [setFile_self found],
            fun opened => .inr (by simpa using opened)⟩

def Outcome.put (outcome : Outcome) (data : Bytes) (offset : Int64) : Bytes :=
  if offset < 0 ∨ !outcome.seeks then []
  else if offset.toInt + data.length < 2 ^ 63 then data.take (outcome.written.getD data.length)
  else data.take (outcome.written.getD 0)

theorem Outcome.put_begins (outcome : Outcome) (data : Bytes) (offset : Int64) :
    outcome.put data offset <+: data := by
  rw [Outcome.put]
  split
  · exact List.nil_prefix
  · split <;> exact List.take_prefix _ _

/-- What `WriteChunk` leaves: the file as it was opened, a part of the data
over it, or all of it. -/
inductive Written (world : World) (outcome : Outcome) (filepath data : Bytes) (offset : Int64) :
    Int64 × World → Prop where
  | unopened : Written world outcome filepath data offset (-1, world)
  | opened (start) (opened : Opened world outcome filepath start) :
      Written world outcome filepath data offset (-1, world.setFile filepath (some start))
  | part (start) (opened : Opened world outcome filepath start)
      (ready : outcome.opens = true ∨ outcome.reopens = true) (sought : 0 ≤ offset.toInt) :
      Written world outcome filepath data offset (-1, world.setFile filepath
        (some (overlay 0 start offset.toInt.toNat (outcome.put data offset))))
  | whole (start) (opened : Opened world outcome filepath start)
      (ready : outcome.opens = true ∨ outcome.reopens = true) (sought : 0 ≤ offset.toInt)
      (fits : offset.toInt + data.length < 2 ^ 63) (seeks : outcome.seeks = true)
      (written : outcome.written = none) (all : outcome.put data offset = data) :
      Written world outcome filepath data offset (.ofNat data.length, world.setFile filepath
        (some (overlay 0 start offset.toInt.toNat data)))

theorem writeChunk_written (world : World) (outcome : Outcome) (filepath data : Bytes)
    (offset : Int64) : Written world outcome filepath data offset
      (world.writeChunk outcome filepath data offset) := by
  simp only [World.writeChunk]
  rcases openChunk_cases world outcome filepath with
    failed | ⟨start, opened, readable, result, ready⟩
  · rw [failed]
    exact .unopened
  · rw [result]
    have content : ((world.setFile filepath (some start)).files filepath).getD [] = start := by
      simp [files_setFile]
    simp only [content, setFile_setFile]
    split
    · exact .opened start opened
    next open' =>
    replace ready := ready (by simpa using open')
    split
    · exact .opened start opened
    next sought =>
    have positive : 0 ≤ offset.toInt := by
      by_contra negative
      refine sought (.inl ?_)
      rw [Int64.lt_iff_toInt_lt]
      exact Int.not_le.mp negative
    split
    next count partly =>
      have put : outcome.put data offset = data.take count := by
        rw [Outcome.put, if_neg sought]
        split at partly
        next fits => rw [if_pos (by simpa using fits), partly, Option.getD_some]
        next long => rw [if_neg (by simpa using long), Option.some.inj partly]
      rw [← put]
      exact .part start opened ready positive
    next all =>
      split at all
      next fits =>
        have fits : offset.toInt + data.length < 2 ^ 63 := by simpa using fits
        refine .whole start opened ready positive fits (by simpa using (not_or.mp sought).2) all ?_
        rw [Outcome.put, if_neg sought, if_pos fits, all, Option.getD_none, List.take_length]
      · cases all

@[simp]
theorem fileInfo_writeChunk (world : World) (outcome : Outcome) (filepath data : Bytes)
    (offset : Int64) :
    (world.writeChunk outcome filepath data offset).2.fileInfo = world.fileInfo := by
  have written := writeChunk_written world outcome filepath data offset
  generalize world.writeChunk outcome filepath data offset = result at written
  cases written <;> rfl

theorem files_writeChunk_of_ne (world : World) (outcome : Outcome) (data : Bytes) (offset : Int64)
    {filepath path : Bytes} (other : path ≠ filepath) :
    (world.writeChunk outcome filepath data offset).2.files path = world.files path := by
  have written := writeChunk_written world outcome filepath data offset
  generalize world.writeChunk outcome filepath data offset = result at written
  cases written with
  | unopened => rfl
  | opened | part | whole => rw [files_setFile, if_neg other]

/-- How a call changes a row. -/
inductive Rewrites (id : Int) : Call → Option FileInfo → Option FileInfo → Prop where
  | keep (call row) : Rewrites id call row row
  | insert (file) : Rewrites id (.insert file) none (some file)
  | uploadSize (info uploadSize) : Rewrites id (.updateUploadSize id uploadSize) (some info)
      (some { info with uploadSize })
  | extend (info finish) (uploading : info.status = .kUploading) (fits : finish ≤ info.filesize) :
      Rewrites id (.extendUpload id info.userId info.uploadSize finish) (some info)
        (some { info with uploadSize := finish })
  | status (info status) : Rewrites id (.updateStatus id status) (some info)
      (some { info with status })

theorem Rewrites.modify (world : World) (id fileId : Int) (call : Call) (f : FileInfo → FileInfo)
    (rewrites : ∀ info, world.fileInfo.get? fileId = some info →
      Rewrites fileId call (some info) (some (f info))) :
    Rewrites id call (world.fileInfo.get? id) ((world.modifyRow fileId f).fileInfo.get? id) := by
  rw [World.modifyRow, Table.get?_modify]
  by_cases same : id = fileId
  · subst same
    rw [if_pos rfl]
    cases found : world.fileInfo.get? id with
    | none => exact .keep _ _
    | some info => exact rewrites info found
  · rw [if_neg same]
    exact .keep _ _

theorem serve_rewrites (outcome : Outcome) (call : Call) (world : World) (id : Int) :
    Rewrites id call (world.fileInfo.get? id)
      ((serve outcome call world).2.fileInfo.get? id) := by
  cases call with
  | insert file =>
      simp only [serve]
      split
      next fileId inserted created =>
        obtain ⟨fresh, rfl, rfl⟩ := insertRow_eq_some.mp created
        have added : Rewrites id (.insert file) (world.fileInfo.get? id)
            ((world.fileInfo.insertNew (world.lastInsertId + 1) file fresh).get? id) := by
          rw [Table.get?_insertNew]
          split
          next same =>
            rw [same, fresh]
            exact .insert file
          · exact .keep _ _
        split
        · exact added
        · split
          · exact added
          · exact .keep _ _
      · exact .keep _ _
  | updateUploadSize fileId uploadSize =>
      simp only [serve]
      split
      · exact .modify world id fileId _ _ fun info _ => .uploadSize info uploadSize
      · exact .keep _ _
  | extendUpload fileId userId offset finish =>
      simp only [serve]
      split
      next changes =>
        refine .modify world id fileId _ _ ?_
        intro info found
        have matched := changes.1
        rw [World.extends?, found] at matched
        obtain ⟨rfl, uploading, rfl, fits⟩ := of_decide_eq_true matched
        exact .extend info finish uploading fits
      · exact .keep _ _
  | updateStatus fileId status =>
      simp only [serve]
      split
      · exact .modify world id fileId _ _ fun info _ => .status info status
      · exact .keep _ _
  | writeChunk filepath data offset =>
      rw [serve, fileInfo_writeChunk]
      exact .keep _ _
  | deleteFile filepath =>
      simp only [serve]
      split
      · exact .keep _ _
      · exact .keep _ _
  | findById | findIncompleteByKey | localtime | createUserDir | getFileSize => exact .keep _ _

theorem files_serve (outcome : Outcome) {call : Call} (world : World)
    (chunkless : ∀ filepath data offset, call ≠ .writeChunk filepath data offset)
    (keeping : ∀ filepath, call ≠ .deleteFile filepath) :
    (serve outcome call world).2.files = world.files := by
  cases call with
  | writeChunk filepath data offset => exact absurd rfl (chunkless filepath data offset)
  | deleteFile filepath => exact absurd rfl (keeping filepath)
  | insert file =>
      simp only [serve]
      split
      next id inserted created =>
        obtain ⟨fresh, rfl, rfl⟩ := insertRow_eq_some.mp created
        split
        · rfl
        · split <;> rfl
      · rfl
  | updateUploadSize | extendUpload | updateStatus =>
      simp only [serve]
      split <;> rfl
  | findById | findIncompleteByKey | localtime | createUserDir | getFileSize => rfl

end FileServer.Service
