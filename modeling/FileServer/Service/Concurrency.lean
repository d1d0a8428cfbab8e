import FileServer.Service.System
import FileServer.Transition.Registers

/-!
# Concurrent calls of UploadData

The calls read a record, write their chunk and store a new `upload_size`, each
on a thread of its own.  The progress is kept as long as no call stores after a
call that it has not seen and that goes further.
-/

namespace FileServer.Service

open FileServer.Encoding FileServer.Relational FileServer.Transition

/-- A call of `UploadData` on a file. -/
def isUploadOf (fileId : Int) : Request → Bool
  | .uploadData id _ _ _ => id = fileId
  | _ => false

/-- The thread pool of the single process, when only such calls are made. -/
def uploads (fileId : Int) (world : World) :
    Deployment Request Empty Call Call.Answer Outcome World Failure Reply where
  serve
  handler
  refusal _ := { code := -1 }
  front order := nomatch order
  lost
  direct := isUploadOf fileId
  initial := world

abbrev UploadState := Interleaved Request Empty Call Call.Answer World Failure Reply
abbrev UploadEvent := Event UploadState (Move Request Empty Outcome)
abbrev UploadJob := Job Request Call Call.Answer Failure Reply

def uploadSize (fileId : Int) (state : UploadState) : Int :=
  ((state.scene.world.fileInfo.get? fileId).map fun info => info.uploadSize.toInt).getD 0

/-- The end of the range of a call. -/
def finish : Request → Int
  | .uploadData _ _ data offset => offset.toInt + data.length
  | _ => 0

/-- What an event does to `upload_size`; an `UPDATE` without effect does
nothing. -/
def operation (event : UploadEvent) : Option (Operation Nat Int) :=
  match event.action with
  | .advance job outcome =>
      match event.before.jobs[job]? with
      | some ⟨_, .call (.findById _) _⟩ => some (.read job)
      | some ⟨request, .call (.updateUploadSize _ _) _⟩ =>
          if outcome.succeeds ∨ outcome.applied then some (.store job (finish request)) else none
      | _ => none
  | _ => none

/-- A call has succeeded, with `offset + written` the amount. -/
def Succeeded (job : UploadJob) (amount : Int) : Prop :=
  ∃ fileId userId data offset reply,
    job = ⟨.uploadData fileId userId data offset, .done (.ok reply)⟩ ∧ reply.code = 0 ∧
      amount = offset.toInt + reply.written.toInt

def Finished (state : UploadState) : Prop :=
  ∀ job ∈ state.jobs, ∃ result, job.rest = .done result

/-- `upload_size` never decreases, and when all calls have finished it is the
largest of its initial value and the amounts of the successful calls. -/
structure ProgressKept (fileId initial : Int) (history : List UploadEvent)
    (state : UploadState) : Prop where
  grows : ∀ event ∈ history, uploadSize fileId event.before ≤ uploadSize fileId event.after
  complete : Finished state →
    IsGreatest {amount | amount = initial ∨ ∃ job ∈ state.jobs, Succeeded job amount}
      (uploadSize fileId state)

section Calls

variable {fileId userId : Int} {data : Bytes} {offset : Int64}

/-- The response to an `upload_data` request. -/
def respondWritten (written : Int64) : Handler Reply :=
  return { code := if written < 0 then -1 else 0, written }

/-- `UploadData` after the chunk has been written. -/
def afterWrite (fileId : Int) (offset : Int64) (info : FileInfo) (written : Int64) :
    Handler Int64 := do
  if written < 0 then return -1
  let finish ← add offset written
  let _ ← ask (.updateUploadSize fileId (max info.uploadSize finish))
  return written

def afterRead (fileId userId : Int) (data : Bytes) (offset : Int64) :
    Option FileInfo → Handler Int64
  | none => return -1
  | some info => do
      if info.userId ≠ userId then return -1
      if !info.isUploading then return -1
      let written ← ask (.writeChunk info.filepath data offset)
      afterWrite fileId offset info written

theorem handler_uploadData : handler (.uploadData fileId userId data offset) =
    .call (.findById fileId) fun row =>
      afterRead fileId userId data offset row >>= respondWritten := by
  refine congrArg (Program.call (Call.findById fileId)) (funext fun row => ?_)
  cases row with
  | none => rfl
  | some info => rfl

theorem afterRead_cases (row : Option FileInfo) :
    afterRead fileId userId data offset row >>= respondWritten =
        .done (.ok { code := -1, written := -1 }) ∨
      ∃ info, row = some info ∧ afterRead fileId userId data offset row >>= respondWritten =
        .call (.writeChunk info.filepath data offset) fun written =>
          afterWrite fileId offset info written >>= respondWritten := by
  cases row with
  | none => exact .inl rfl
  | some info =>
      simp only [afterRead]
      by_cases owner : info.userId ≠ userId
      · rw [if_pos owner]
        exact .inl rfl
      rw [if_neg owner]
      by_cases closed : !info.isUploading
      · rw [if_pos closed]
        exact .inl rfl
      rw [if_neg closed]
      exact .inr ⟨info, rfl, rfl⟩

/-- A call whose chunk has been written is refused, or goes on to store the
larger size. -/
theorem afterWrite_cases {info : FileInfo} {written : Int64}
    (whole : written = -1 ∨ written = .ofNat data.length ∧ 0 ≤ offset.toInt ∧
      offset.toInt + data.length < 2 ^ 63) :
    afterWrite fileId offset info written >>= respondWritten =
        .done (.ok { code := -1, written := -1 }) ∨
      ∃ size, size.toInt = max info.uploadSize.toInt (offset.toInt + data.length) ∧
        written.toInt = data.length ∧
        afterWrite fileId offset info written >>= respondWritten =
          .call (.updateUploadSize fileId size) fun _ => .done (.ok { code := 0, written }) := by
  rcases whole with rfl | ⟨rfl, sought, fits⟩
  · exact .inl rfl
  · have length : (Int64.ofNat data.length).toInt = data.length :=
      Int64.toInt_ofNat_of_lt (by omega)
    have counted : ¬Int64.ofNat data.length < 0 := by
      rw [Int64.lt_iff_toInt_lt, length, Int64.toInt_zero]
      omega
    have sum : (offset + .ofNat data.length).toInt = offset.toInt + data.length := by
      rw [toInt_add (by omega) (by omega), length]
    refine .inr ⟨max info.uploadSize (offset + .ofNat data.length), ?_, length, ?_⟩
    · rw [max_toInt, sum]
    · simp only [afterWrite, if_neg counted]
      rw [show add offset (.ofNat data.length) = .ok (offset + .ofNat data.length) from
        checkedAdd_eq_ok (by omega) (by omega)]
      have reply : respondWritten (.ofNat data.length) =
          .done (.ok { code := 0, written := .ofNat data.length }) := by
        simp only [respondWritten, if_neg counted]
        rfl
      rw [← reply]
      rfl

end Calls

/-- How far a call is, and what it has read. -/
inductive Stage (fileId : Int) (seen : Option Int) : UploadJob → Prop where
  | reading (userId data offset) : Stage fileId seen
      ⟨.uploadData fileId userId data offset, .call (.findById fileId) fun row =>
        afterRead fileId userId data offset row >>= respondWritten⟩
  | writing (userId data offset) (info : FileInfo) (read : seen = some info.uploadSize.toInt) :
      Stage fileId seen
        ⟨.uploadData fileId userId data offset, .call (.writeChunk info.filepath data offset)
          fun written => afterWrite fileId offset info written >>= respondWritten⟩
  | storing (userId data offset size written value) (read : seen = some value)
      (larger : size.toInt = max value (offset.toInt + data.length))
      (whole : written.toInt = data.length) : Stage fileId seen
        ⟨.uploadData fileId userId data offset, .call (.updateUploadSize fileId size) fun _ =>
          .done (.ok { code := 0, written })⟩
  | refused (request) : Stage fileId seen ⟨request, .done (.ok { code := -1, written := -1 })⟩
  | stored (userId data offset written) (whole : written.toInt = data.length) :
      Stage fileId seen
        ⟨.uploadData fileId userId data offset, .done (.ok { code := 0, written })⟩

/-- The record is a register that the calls raise. -/
structure Simulates (fileId : Int) (state : UploadState) (register : Register Nat Int) :
    Prop where
  row : ∃ info, state.scene.world.fileInfo.get? fileId = some info ∧
    info.uploadSize.toInt = register.value
  stages : ∀ index job, state.jobs[index]? = some job → Stage fileId (register.seen index) job
  alone : state.sessions = []

section Steps

variable {fileId : Int} {world : World} {before after : UploadState} {register : Register Nat Int}

theorem Simulates.uploadSize_eq (simulates : Simulates fileId before register) :
    uploadSize fileId before = register.value := by
  obtain ⟨info, found, same⟩ := simulates.row
  rw [uploadSize, found]
  exact same

theorem Simulates.advance (simulates : Simulates fileId before register) {index : Nat}
    {job : UploadJob} {scene : Scene Call Call.Answer World} {register' : Register Nat Int}
    (row : ∃ info, scene.world.fileInfo.get? fileId = some info ∧
      info.uploadSize.toInt = register'.value)
    (others : ∀ other, other ≠ index → register'.seen other = register.seen other)
    (stage : Stage fileId (register'.seen index) job) :
    Simulates fileId { before with scene, jobs := before.jobs.set index job } register' where
  row := row
  stages := by
    intro other current found
    by_cases same : index = other
    · subst same
      rw [List.getElem?_set_self'] at found
      obtain ⟨_, _, rfl⟩ := Option.map_eq_some_iff.mp found
      exact stage
    · rw [List.getElem?_set_ne same] at found
      rw [others other (Ne.symm same)]
      exact simulates.stages other current found
  alone := simulates.alone

section Jobs

variable (simulates : Simulates fileId before register) {job : Nat} (outcome : Outcome)
  (userId : Int) (data : Bytes) (offset : Int64)
include simulates

theorem Simulates.reads : Simulates fileId
    { before with
      scene := ((uploads fileId world).perform outcome (.findById fileId) before.scene).2
      jobs := before.jobs.set job ⟨.uploadData fileId userId data offset,
        afterRead fileId userId data offset
          ((uploads fileId world).perform outcome (.findById fileId) before.scene).1 >>=
            respondWritten⟩ }
    { register with seen := Function.update register.seen job (some register.value) } := by
  refine simulates.advance simulates.row
    (fun other distinct => Function.update_of_ne distinct _ _) ?_
  show Stage fileId (Function.update register.seen job (some register.value) job) _
  rw [Function.update_self]
  rcases @afterRead_cases fileId userId data offset
    ((uploads fileId world).perform outcome (.findById fileId) before.scene).1 with
    refused | ⟨row, read, continued⟩
  · rw [refused]
    exact .refused _
  · rw [continued]
    refine .writing userId data offset row ?_
    obtain ⟨info, found, same⟩ := simulates.row
    have answer : (if outcome.succeeds then before.scene.world.fileInfo.get? fileId else none) =
        some row := read
    split at answer
    · obtain rfl := Option.some.inj (found.symm.trans answer)
      rw [same]
    · cases answer

theorem Simulates.writes (row : FileInfo) (read : register.seen job = some row.uploadSize.toInt) :
    Simulates fileId
      { before with
        scene := ((uploads fileId world).perform outcome (.writeChunk row.filepath data offset)
          before.scene).2
        jobs := before.jobs.set job ⟨.uploadData fileId userId data offset,
          afterWrite fileId offset row ((uploads fileId world).perform outcome
            (.writeChunk row.filepath data offset) before.scene).1 >>= respondWritten⟩ } register := by
  have kept : (before.scene.world.writeChunk outcome row.filepath data offset).2.fileInfo =
      before.scene.world.fileInfo := fileInfo_writeChunk ..
  refine simulates.advance ?_ (fun _ _ => rfl) ?_
  · obtain ⟨info, found, same⟩ := simulates.row
    exact ⟨info, (congrArg (fun table => table.get? fileId) kept).trans found, same⟩
  have whole : ∀ result, Written before.scene.world outcome row.filepath data offset result →
      result.1 = -1 ∨ result.1 = .ofNat data.length ∧ 0 ≤ offset.toInt ∧
        offset.toInt + data.length < 2 ^ 63 := by
    intro result written
    cases written with
    | unopened => exact .inl rfl
    | opened => exact .inl rfl
    | part => exact .inl rfl
    | whole start opened _ sought fits => exact .inr ⟨rfl, sought, fits⟩
  rcases @afterWrite_cases fileId data offset row _
    (whole _ (writeChunk_written before.scene.world outcome row.filepath data offset)) with
    refused | ⟨size, larger, length, continued⟩
  · exact refused ▸ .refused _
  · exact continued ▸ .storing userId data offset size _ _ read larger length

theorem Simulates.stores {size written : Int64} {value : Int}
    (larger : size.toInt = max value (offset.toInt + data.length))
    (whole : written.toInt = data.length) : Simulates fileId
      { before with
        scene := ((uploads fileId world).perform outcome (.updateUploadSize fileId size)
          before.scene).2
        jobs := before.jobs.set job ⟨.uploadData fileId userId data offset,
          .done (.ok { code := 0, written })⟩ }
      (if outcome.succeeds ∨ outcome.applied then
        { register with value := max value (offset.toInt + data.length) } else register) := by
  have stage : ∀ seen, Stage fileId seen ⟨.uploadData fileId userId data offset,
      .done (.ok { code := 0, written })⟩ := fun seen => .stored userId data offset written whole
  obtain ⟨info, found, same⟩ := simulates.row
  by_cases applied : outcome.succeeds ∨ outcome.applied
  · rw [if_pos applied]
    refine simulates.advance ⟨{ info with uploadSize := size }, ?_, larger⟩ (fun _ _ => rfl)
      (stage _)
    show (serve outcome (.updateUploadSize fileId size) before.scene.world).2.fileInfo.get? fileId =
      _
    simp only [serve, if_pos applied, World.modifyRow, Table.get?_modify, if_true, found,
      Option.map_some]
  · rw [if_neg applied]
    refine simulates.advance ⟨info, ?_, same⟩ (fun _ _ => rfl) (stage _)
    show (serve outcome (.updateUploadSize fileId size) before.scene.world).2.fileInfo.get? fileId =
      _
    simp only [serve, if_neg applied, found]

end Jobs

theorem Simulates.step (simulates : Simulates fileId before register)
    {move : Move Request Empty Outcome}
    (stepped : (uploads fileId world).step before move = some after) :
    (operation ⟨before, move, after⟩ = none ∧ Simulates fileId after register) ∨
      ∃ label register', operation ⟨before, move, after⟩ = some label ∧
        register.step label = some register' ∧ Simulates fileId after register' := by
  obtain ⟨info, found, same⟩ := simulates.row
  rcases Deployment.step_of_no_orders simulates.alone stepped with
    ⟨request, rfl, accepted, rfl⟩ | ⟨job, outcome, request, call, next, rfl, current, rfl⟩
  · refine .inl ⟨rfl, ⟨info, found, same⟩, ?_, simulates.alone⟩
    intro index job inside
    rw [List.getElem?_append] at inside
    split at inside
    · exact simulates.stages index job inside
    · obtain rfl := List.mem_singleton.mp (List.mem_of_getElem? inside)
      cases request with
      | uploadData id userId data offset =>
          obtain rfl : id = fileId := of_decide_eq_true accepted
          show Stage id _ ⟨_, handler (.uploadData id userId data offset)⟩
          rw [handler_uploadData]
          exact .reading userId data offset
      | _ => cases accepted
  · have stage := simulates.stages job _ current
    cases stage with
    | reading userId data offset =>
        refine .inr ⟨.read job, _, by simp only [operation, current], rfl, ?_⟩
        exact simulates.reads outcome userId data offset
    | writing userId data offset row read =>
        refine .inl ⟨by simp only [operation, current], ?_⟩
        exact simulates.writes outcome userId data offset row read
    | storing userId data offset size written value read larger whole =>
        have stores := @Simulates.stores fileId world before register simulates job outcome userId
          data offset size written value larger whole
        by_cases applied : outcome.succeeds ∨ outcome.applied
        · refine .inr ⟨.store job (offset.toInt + data.length),
            { register with value := max value (offset.toInt + data.length) }, ?_, ?_, ?_⟩
          · simp only [operation, current, if_pos applied, finish]
          · simp only [Register.step, read, Option.map_some]
          · rwa [if_pos applied] at stores
        · refine .inl ⟨?_, ?_⟩
          · simp only [operation, current, if_neg applied]
          · rwa [if_neg applied] at stores

theorem Simulates.succeeds (simulates : Simulates fileId before register)
    {move : Move Request Empty Outcome}
    (stepped : (uploads fileId world).step before move = some after) {index : Nat} {amount : Int}
    (stores : operation ⟨before, move, after⟩ = some (.store index amount)) :
    ∃ job, after.jobs[index]? = some job ∧ Succeeded job amount := by
  cases move with
  | advance job outcome =>
      obtain ⟨request, call, next, current, rfl⟩ := Deployment.step_advance_iff.mp stepped
      have stage := simulates.stages job _ current
      have inside := (List.getElem?_eq_some_iff.mp current).1
      cases stage with
      | reading => simp [operation, current] at stores
      | writing => simp [operation, current] at stores
      | storing userId data offset size written value read larger whole =>
          simp only [operation, current] at stores
          split at stores
          · cases stores
            refine ⟨_, List.getElem?_set_self inside, ?_⟩
            exact ⟨fileId, userId, data, offset, _, rfl, rfl, by rw [whole, finish]⟩
          · cases stores
  | _ => cases stores

end Steps

section Runs

variable {fileId : Int} {world : World} {info : FileInfo} {history : List UploadEvent}
  {state : UploadState}

/-- The operations of a run, newest first. -/
def operations (history : List UploadEvent) : List (Operation Nat Int) :=
  history.filterMap operation

theorem simulates_of_run (found : world.fileInfo.get? fileId = some info)
    (run : Run (uploads fileId world).system history state) :
    ∃ events register, Run (Register.system info.uploadSize.toInt) events register ∧
      events.map Event.action = operations history ∧ Simulates fileId state register ∧
      ((∀ event ∈ history, uploadSize fileId event.before ≤ uploadSize fileId event.after) ↔
        ∀ event ∈ events, event.before.value ≤ event.after.value) ∧
      ∀ index amount, .store index amount ∈ operations history →
        ∃ job, state.jobs[index]? = some job ∧ Succeeded job amount := by
  induction run with
  | start =>
      refine ⟨[], _, .start, rfl, ⟨⟨info, found, rfl⟩, ?_, rfl⟩, by simp, ?_⟩
      · simp [Deployment.system]
      · simp [operations]
  | @next older before move after earlier stepped inductionHypothesis =>
      obtain ⟨events, register, seen, labels, simulates, grows, succeeded⟩ := inductionHypothesis
      have kept : ∀ index amount, .store index amount ∈ operations older →
          ∃ job, after.jobs[index]? = some job ∧ Succeeded job amount := by
        intro index amount stored
        obtain ⟨job, inside, fileId, userId, data, offset, reply, rfl, ok⟩ :=
          succeeded index amount stored
        obtain ⟨rest, current, finished⟩ :=
          Deployment.job_of_step simulates.alone stepped inside
        obtain rfl := finished _ rfl
        exact ⟨_, current, fileId, userId, data, offset, reply, rfl, ok⟩
      rcases simulates.step stepped with ⟨silent, still⟩ | ⟨label, register', acts, taken, again⟩
      · refine ⟨events, register, seen, ?_, still, ?_, ?_⟩
        · rw [labels, operations, operations, List.filterMap_cons_none silent]
        · rw [List.forall_mem_cons, grows, simulates.uploadSize_eq, still.uploadSize_eq]
          exact and_iff_right le_rfl
        · intro index amount stored
          rw [operations, List.filterMap_cons_none silent] at stored
          exact kept index amount stored
      · refine ⟨_, register', seen.next taken, ?_, again, ?_, ?_⟩
        · rw [List.map_cons, labels, operations, operations, List.filterMap_cons_some acts]
        · rw [List.forall_mem_cons, List.forall_mem_cons, grows, simulates.uploadSize_eq,
            again.uploadSize_eq]
        · intro index amount stored
          rw [operations, List.filterMap_cons_some acts] at stored
          rcases List.mem_cons.mp stored with rfl | before
          · exact simulates.succeeds stepped acts
          · exact kept index amount before

/-- The progress is kept exactly when no store is overtaken and no successful
call has lost its `UPDATE` unless another went as far. -/
theorem progressKept_iff (found : world.fileInfo.get? fileId = some info)
    (run : Run (uploads fileId world).system history state) :
    ProgressKept fileId info.uploadSize.toInt history state ↔
      ¬Overtaken info.uploadSize.toInt (operations history) ∧
      (Finished state → ∀ job ∈ state.jobs, ∀ amount, Succeeded job amount →
        ∃ stored ∈ amounts info.uploadSize.toInt (operations history), amount ≤ stored) := by
  obtain ⟨events, register, seen, labels, simulates, grows, succeeded⟩ :=
    simulates_of_run found run
  obtain ⟨growing, tracked⟩ := tracked_of_run seen
  rw [labels] at growing tracked
  constructor
  · intro progress
    have kept := growing.mp (grows.mp progress.grows)
    refine ⟨kept, fun finished job inside amount success => ?_⟩
    have greatest := (tracked kept).greatest
    refine ⟨register.value, greatest.1, ?_⟩
    rw [← simulates.uploadSize_eq]
    exact (progress.complete finished).2 (.inr ⟨job, inside, success⟩)
  · rintro ⟨kept, recorded⟩
    have greatest := (tracked kept).greatest
    refine ⟨grows.mpr (growing.mpr kept), fun finished => ?_⟩
    rw [simulates.uploadSize_eq]
    refine ⟨?_, ?_⟩
    · rcases greatest.1 with first | ⟨index, stored⟩
      · exact .inl first
      · obtain ⟨job, inside, success⟩ := succeeded index _ stored
        exact .inr ⟨job, List.mem_of_getElem? inside, success⟩
    · rintro amount (rfl | ⟨job, inside, success⟩)
      · exact greatest.2 (.inl rfl)
      · obtain ⟨stored, known, reaches⟩ := recorded finished job inside amount success
        exact reaches.trans (greatest.2 known)

end Runs

/-- A record of two bytes under way, and two calls of one byte each. -/
def underWay : World where
  collate := id
  fileInfo := (Table.empty.insertNew 1
    { userId := 1, filename := [0x61], filepath := [0x61], filesize := 2, md5 := [] } rfl)
  lastInsertId := 1
  files _ := none

/-- Both calls read the record, and the one that goes further stores first. -/
def lostUpdate : List (Move Request Empty Outcome) :=
  [.request (.uploadData 1 1 [7] 0), .request (.uploadData 1 1 [8] 1), .advance 0 {},
    .advance 1 {}, .advance 0 {}, .advance 1 {}, .advance 1 {}, .advance 0 {}]

theorem progress_lost : ¬∀ (fileId : Int) (world : World) (info : FileInfo),
    world.fileInfo.get? fileId = some info → ∀ (history : List UploadEvent) (state : UploadState),
    Run (uploads fileId world).system history state →
    ProgressKept fileId info.uploadSize.toInt history state := by
  intro kept
  have enabled : ((uploads 1 underWay).system.execute (uploads 1 underWay).system.initial
      lostUpdate).isSome := by decide +kernel
  have run := (uploads 1 underWay).system.run lostUpdate enabled
  have grows := (kept 1 underWay _ rfl _ _ run).grows
  exact absurd grows (by decide +kernel)

/-- The second call reads the record after the first has stored. -/
def oneAfterAnother : List (Move Request Empty Outcome) :=
  [.request (.uploadData 1 1 [7] 0), .request (.uploadData 1 1 [8] 1), .advance 0 {},
    .advance 0 {}, .advance 0 {}, .advance 1 {}, .advance 1 {}, .advance 1 {}]

theorem oneAfterAnother_enabled : ((uploads 1 underWay).system.execute
    (uploads 1 underWay).system.initial oneAfterAnother).isSome := by decide +kernel

theorem progressKept_oneAfterAnother : ProgressKept 1 0
    ((uploads 1 underWay).system.events (uploads 1 underWay).system.initial oneAfterAnother)
    (((uploads 1 underWay).system.execute (uploads 1 underWay).system.initial
      oneAfterAnother).get oneAfterAnother_enabled) := by
  have run := (uploads 1 underWay).system.run oneAfterAnother oneAfterAnother_enabled
  have ops : operations ((uploads 1 underWay).system.events (uploads 1 underWay).system.initial
      oneAfterAnother) = [.store 1 2, .read 1, .store 0 1, .read 0] := by rfl
  refine (progressKept_iff rfl run).mpr ?_
  rw [ops]
  have jobs : (((uploads 1 underWay).system.execute (uploads 1 underWay).system.initial
      oneAfterAnother).get oneAfterAnother_enabled).jobs =
      [⟨.uploadData 1 1 [7] 0, .done (.ok { code := 0, written := 1 })⟩,
        ⟨.uploadData 1 1 [8] 1, .done (.ok { code := 0, written := 1 })⟩] := by rfl
  rw [jobs]
  refine ⟨by simp, fun _ job inside amount success => ⟨2, .inr ⟨1, by simp⟩, ?_⟩⟩
  obtain ⟨_, _, _, _, _, rfl, _, rfl⟩ := success
  simp only [List.mem_cons, List.not_mem_nil, or_false, Job.mk.injEq] at inside
  rcases inside with ⟨call, result⟩ | ⟨call, result⟩
  · cases call
    cases result
    decide
  · cases call
    cases result
    decide

end FileServer.Service
