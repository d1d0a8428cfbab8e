import FileServer.Service.Deletions
import FileServer.Service.Progress

/-!
# Confirmed bytes

StorageService writes without knowing the progress of an upload.  Confirmed
bytes stay as long as no chunk is written over them.
-/

namespace FileServer.Service

open FileServer.Relational FileServer.Sequence FileServer.Transition

def byteAt (state : ServiceState) (filepath : Bytes) (position : Nat) : Option UInt8 :=
  (state.scene.world.files filepath).bind fun content => content[position]?

/-- The step belongs to a request that deletes the file, which has checked its
record. -/
def DeletesFile (event : ServiceEvent) (fileId : Int) : Prop :=
  ∃ job outcome userId call next, event.action = .advance job outcome ∧
    event.before.jobs[job]? = some ⟨.delete fileId userId, .call call next⟩ ∧
    call ≠ .findById fileId

def Repeats (state : ServiceState) (filepath data : Bytes) (offset bound : Int64) : Prop :=
  ∀ position : Nat, offset.toInt ≤ position → position < offset.toInt + data.length →
    position < bound.toInt → data[position - offset.toInt.toNat]? = byteAt state filepath position

/-- The write leaves an existing file open and as it is up to the bytes it puts,
which repeat below the bound what is stored. -/
structure LeavesBelow (state : ServiceState) (outcome : Outcome) (filepath data : Bytes)
    (offset bound : Int64) : Prop where
  intact : outcome.opens = true ∨ outcome.creates = false
  repeats : outcome.opens = true ∨ outcome.reopens = true →
    Repeats state filepath (outcome.put data offset) offset bound

/-- The step puts nothing else over confirmed bytes, and neither empties nor
removes a file of another record. -/
structure Exclusive (event : ServiceEvent) : Prop where
  writes : ∀ job outcome request filepath data offset next, event.action = .advance job outcome →
    event.before.jobs[job]? = some ⟨request, .call (.writeChunk filepath data offset) next⟩ →
    ∀ fileId info, event.before.scene.world.fileInfo.get? fileId = some info →
      info.filepath = filepath → info.status ≠ .kDeleted → 0 < info.uploadSize.toInt →
      LeavesBelow event.before outcome filepath data offset info.uploadSize
  removes : ∀ job outcome deleted userId filepath next, event.action = .advance job outcome →
    event.before.jobs[job]? = some ⟨.delete deleted userId, .call (.deleteFile filepath) next⟩ →
    outcome.succeeds = true →
    ∀ fileId info, event.before.scene.world.fileInfo.get? fileId = some info →
      info.filepath = filepath → info.status ≠ .kDeleted → 0 < info.uploadSize.toInt →
      fileId = deleted

structure Confirmed (state : ServiceState) (fileId : Int) (filepath : Bytes) (position : Nat) :
    Prop where
  row : ∃ info, state.scene.world.fileInfo.get? fileId = some info ∧ info.filepath = filepath ∧
    info.status ≠ .kDeleted ∧ position < info.uploadSize.toInt

theorem stored_writeChunk {world : World} {outcome : Outcome} {filepath data : Bytes}
    {offset : Int64} {position : Nat} {content : Bytes}
    (exists' : world.files filepath = some content) (present : position < content.length)
    (intact : outcome.opens = true ∨ outcome.creates = false)
    (repeats : outcome.opens = true ∨ outcome.reopens = true → offset.toInt ≤ position →
      position < offset.toInt + (outcome.put data offset).length →
      (outcome.put data offset)[position - offset.toInt.toNat]? = content[position]?) :
    ∃ content', (world.writeChunk outcome filepath data offset).2.files filepath = some content' ∧
      content'[position]? = content[position]? := by
  have content_eq : ∀ {start}, Opened world outcome filepath start → start = content := by
    rintro start (found | ⟨_, creates, missing | shut⟩)
    · exact Option.some.inj (found.symm.trans exists')
    · rw [exists'] at missing
      cases missing
    · rcases intact with opens | kept
      · rw [opens] at shut
        cases shut
      · rw [creates] at kept
        cases kept
  have stays : outcome.opens = true ∨ outcome.reopens = true → 0 ≤ offset.toInt →
      (overlay 0 content offset.toInt.toNat (outcome.put data offset))[position]? =
        content[position]? := fun ready sought =>
    getElem?_overlay_of_agrees _ _ _ present fun after before =>
      repeats ready (by omega) (by omega)
  have written := writeChunk_written world outcome filepath data offset
  generalize world.writeChunk outcome filepath data offset = result at written ⊢
  cases written with
  | unopened => exact ⟨content, exists', rfl⟩
  | opened start opened =>
      obtain rfl := content_eq opened
      exact ⟨start, by rw [files_setFile, if_pos rfl], rfl⟩
  | part start opened ready sought =>
      obtain rfl := content_eq opened
      exact ⟨_, by rw [files_setFile, if_pos rfl], stays ready sought⟩
  | whole start opened ready sought _ _ _ all =>
      obtain rfl := content_eq opened
      rw [all] at stays
      exact ⟨_, by rw [files_setFile, if_pos rfl], stays ready sought⟩

section Steps

variable {collate : Bytes → Bytes} {older : List ServiceEvent} {before after : ServiceState}
  {move : Move Request UploadData Outcome} {fileId : Int} {filepath : Bytes} {position : Nat}

theorem confirmed_step (run : Run (microservices collate).system older before)
    (stepped : (microservices collate).step before move = some after)
    (kept : ¬DeletesFile ⟨before, move, after⟩ fileId)
    (confirmed : Confirmed before fileId filepath position) :
    Confirmed after fileId filepath position := by
  obtain ⟨info, found, path, undeleted, below⟩ := confirmed.row
  have sound := Discipline.sound_of_run kept_progress run
  have continues : Continues before.scene after.scene := (sound.step kept_progress stepped).2
  obtain ⟨info', found', grown⟩ := continues.rows fileId info found
  refine ⟨info', found', grown.filepath.trans path, ?_, below.trans_le grown.uploadSize⟩
  rcases Deployment.scene_of_step stepped with same | ⟨job, outcome, request, call, next, rfl, inJobs,
    scene⟩
  · rw [same, found] at found'
    rwa [← Option.some.inj found']
  · have rewrites := serve_rewrites outcome call before.scene.world fileId
    rw [found] at rewrites
    have served : (serve outcome call before.scene.world).2.fileInfo.get? fileId = some info' := by
      rw [scene] at found'
      exact found'
    rw [served] at rewrites
    cases rewrites with
    | keep | uploadSize | extend => exact undeleted
    | status =>
        intro deleted
        have permitted := (Deployment.calls_of_run handler_calls run _
          (List.mem_of_getElem? inJobs)).1
        cases request with
        | uploadFinalize | finalizeUpload =>
            obtain ⟨_, completed⟩ := permitted
            exact absurd (deleted.symm.trans completed) (by decide)
        | delete deletes userId =>
            obtain ⟨rfl, _⟩ := permitted
            exact kept ⟨job, outcome, userId, _, next, rfl, inJobs, by simp⟩
        | _ => exact permitted.elim

theorem stored_step (run : Run (microservices collate).system older before)
    (stepped : (microservices collate).step before move = some after)
    (exclusive : Exclusive ⟨before, move, after⟩)
    (kept : ¬DeletesFile ⟨before, move, after⟩ fileId)
    (confirmed : Confirmed before fileId filepath position) {byte : UInt8}
    (stored : byteAt before filepath position = some byte) :
    byteAt after filepath position = some byte := by
  obtain ⟨info, found, path, undeleted, below⟩ := confirmed.row
  rcases Deployment.scene_of_step stepped with same | ⟨job, outcome, request, call, next, rfl, inJobs,
    scene⟩
  · rw [byteAt, same]
    exact stored
  have files : after.scene.world.files = (serve outcome call before.scene.world).2.files := by
    rw [scene]
    rfl
  rw [byteAt, files]
  by_cases chunk : ∃ path' data offset, call = .writeChunk path' data offset
  · obtain ⟨path', data, offset, rfl⟩ := chunk
    by_cases here : path' = filepath
    · subst here
      obtain ⟨content, exists', present⟩ := Option.bind_eq_some_iff.mp stored
      have preserves := exclusive.writes job outcome request path' data offset next rfl inJobs
        fileId info found path undeleted (by omega)
      obtain ⟨content', exists'', same⟩ := stored_writeChunk exists'
        (List.getElem?_eq_some_iff.mp present).1 preserves.intact fun opened low high => by
          rw [preserves.repeats opened position low high below, byteAt, exists']
          rfl
      show ((before.scene.world.writeChunk outcome path' data offset).2.files path').bind _ = _
      rw [exists'', Option.bind_some, same, present]
    · show ((before.scene.world.writeChunk outcome path' data offset).2.files filepath).bind _ = _
      rw [files_writeChunk_of_ne _ _ _ _ (Ne.symm here)]
      exact stored
  · by_cases removal : ∃ path', call = .deleteFile path'
    · obtain ⟨path', rfl⟩ := removal
      have permitted := (Deployment.calls_of_run handler_calls run _
        (List.mem_of_getElem? inJobs)).1
      simp only [serve]
      split
      next removed =>
        have other : filepath ≠ path' := by
          rintro rfl
          cases request with
          | delete deleted userId =>
              obtain rfl := exclusive.removes job outcome deleted userId filepath next rfl inJobs
                removed.2 fileId info found path undeleted (by omega)
              exact kept ⟨job, outcome, userId, _, next, rfl, inJobs, by simp⟩
          | _ => exact permitted.elim
        rw [files_setFile, if_neg other]
        exact stored
      · exact stored
    · rw [files_serve outcome _ (fun path data offset same => chunk ⟨path, data, offset, same⟩)
        fun path same => removal ⟨path, same⟩]
      exact stored

end Steps

/-- In every run whose steps are exclusive, a confirmed byte stays until a
request deletes its file. -/
theorem confirmed_bytes_stay {collate : Bytes → Bytes} {newer older : List ServiceEvent}
    {first last : ServiceState}
    (begun : Run (microservices collate).system older first)
    (run : Run (microservices collate).system (newer ++ older) last)
    (exclusive : ∀ event ∈ newer, Exclusive event) {fileId : Int} {filepath : Bytes}
    {position : Nat} {byte : UInt8} (confirmed : Confirmed first fileId filepath position)
    (stored : byteAt first filepath position = some byte)
    (kept : ∀ event ∈ newer, ¬DeletesFile event fileId) :
    Confirmed last fileId filepath position ∧ byteAt last filepath position = some byte := by
  induction newer generalizing last with
  | nil =>
      rw [← begun.last_eq run]
      exact ⟨confirmed, stored⟩
  | cons event newer inductionHypothesis =>
      generalize history : event :: newer ++ older = whole at run
      cases run with
      | start => cases history
      | @next earlier before action _ run stepped =>
          cases history
          obtain ⟨confirmed, stored⟩ := inductionHypothesis run
            (fun event membership => exclusive event (List.mem_cons_of_mem _ membership))
            fun event membership => kept event (List.mem_cons_of_mem _ membership)
          have here := kept _ List.mem_cons_self
          exact ⟨confirmed_step run stepped here confirmed,
            stored_step run stepped (exclusive _ List.mem_cons_self) here confirmed stored⟩

section Overwriting

/-- Two sessions prepare the same range; the first writes and confirms it. -/
def racingMoves : List (Move Request UploadData Outcome) :=
  [.request (.uploadStart 1 [97] 2 []), .advance 0 {}, .advance 0 {}, .advance 0 {}, .advance 0 {},
    .order ⟨1, 1, 0, [7, 8]⟩, .order ⟨1, 1, 0, [9, 9]⟩,
    .deliver 0, .advance 1 {}, .answer 0, .deliver 1, .advance 2 {}, .answer 1,
    .deliver 0, .advance 3 {}, .advance 3 {}, .answer 0, .deliver 1, .advance 4 {},
    .deliver 0, .advance 5 {}, .advance 5 {}, .advance 5 {}, .answer 0]

def confirmedRace : ServiceState :=
  ((microservices id).system.execute (microservices id).system.initial racingMoves).get (by decide +kernel)

/-- The second session writes. -/
def overwritten : ServiceState :=
  ((microservices id).step confirmedRace (.advance 4 {})).get (by decide +kernel)

theorem confirmedRace_run : Run (microservices id).system
    ((microservices id).system.events (microservices id).system.initial racingMoves) confirmedRace :=
  (microservices id).system.run racingMoves (by decide +kernel)

def racedPath : Bytes := generateFilepath 1 [97] default

theorem confirmedRace_confirmed : Confirmed confirmedRace 1 racedPath 0 where
  row := by
    have row : (confirmedRace.scene.world.fileInfo.get? 1).map (fun info =>
        (info.filepath, info.status, info.uploadSize)) = some (racedPath, .kUploading, 2) := by
      decide +kernel
    obtain ⟨info, found, fields⟩ := Option.map_eq_some_iff.mp row
    simp only [Prod.mk.injEq] at fields
    obtain ⟨path, status, size⟩ := fields
    exact ⟨info, found, path, by rw [status]; decide, by rw [size]; decide⟩

/-- The step is neither one of a deletion nor writes a chunk. -/
def sparesFiles (event : ServiceEvent) : Bool :=
  match event.action with
  | .advance job _ =>
      match event.before.jobs[job]? with
      | some ⟨.delete .., _⟩ | some ⟨_, .call (.writeChunk ..) _⟩ => false
      | _ => true
  | _ => true

theorem Exclusive.of_sparesFiles {event : ServiceEvent} (spares : sparesFiles event = true) :
    Exclusive event where
  writes job outcome request filepath data offset next moved inJobs := by
    cases request <;> simp [sparesFiles, moved, inJobs] at spares
  removes job outcome deleted userId filepath next moved inJobs := by
    simp [sparesFiles, moved, inJobs] at spares

theorem not_deletesFile_of_sparesFiles {event : ServiceEvent} (spares : sparesFiles event = true)
    (fileId : Int) : ¬DeletesFile event fileId := by
  rintro ⟨job, outcome, userId, call, next, moved, inJobs, _⟩
  simp [sparesFiles, moved, inJobs] at spares

/-- The first session finalizes the file. -/
def finalizingMoves : List (Move Request UploadData Outcome) :=
  [.request (.finalizeUpload 1 1), .advance 6 {}, .advance 6 {}, .advance 6 {}]

def finalizedRace : ServiceState :=
  ((microservices id).system.execute confirmedRace finalizingMoves).get (by decide +kernel)

/-- Its bytes stay when the file is finalized. -/
theorem confirmed_bytes_stay_raced :
    (finalizedRace.scene.world.fileInfo.get? 1).map (fun info => info.status) = some .kCompleted ∧
      byteAt finalizedRace racedPath 0 = some 7 := by
  have spared : ((microservices id).system.events confirmedRace finalizingMoves).all
      sparesFiles = true := by decide +kernel
  rw [List.all_eq_true] at spared
  exact ⟨by decide +kernel, (confirmed_bytes_stay confirmedRace_run
    (confirmedRace_run.execute finalizingMoves (Option.some_get _).symm)
    (fun event membership => .of_sparesFiles (spared event membership))
    confirmedRace_confirmed (by decide +kernel)
    fun event membership => not_deletesFile_of_sparesFiles (spared event membership) 1).2⟩

/-- A confirmed byte is overwritten. -/
theorem confirmed_overwritten : ¬∀ newer older first last,
    Run (microservices id).system older first → Run (microservices id).system (newer ++ older) last →
      ∀ fileId filepath position byte, Confirmed first fileId filepath position →
        byteAt first filepath position = some byte →
        (∀ event ∈ newer, ¬DeletesFile event fileId) →
        byteAt last filepath position = some byte := by
  intro stays
  have moved : (microservices id).system.step confirmedRace (.advance 4 {}) = some overwritten :=
    (Option.some_get _).symm
  have run := confirmedRace_run.next moved
  have writing : (confirmedRace.jobs[4]?).map (fun job => job.request) =
      some (.writeChunk racedPath 1 0 2 [9, 9]) := by
    decide +kernel
  have kept := stays [⟨confirmedRace, .advance 4 {}, overwritten⟩] _ _ _ confirmedRace_run run 1
    racedPath 0 7 confirmedRace_confirmed (by decide +kernel) (by
      rw [List.forall_mem_singleton]
      rintro ⟨job, _, _, _, _, moved, inJobs, _⟩
      cases moved
      rw [inJobs] at writing
      cases writing)
  have changed : byteAt overwritten racedPath 0 = some 9 := by decide +kernel
  rw [changed] at kept
  cases kept

end Overwriting

end FileServer.Service
