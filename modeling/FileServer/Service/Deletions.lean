import FileServer.Service.Footprints

/-!
# Deleted files

A deleted record leaves its state only through the status update of a request
that finalizes it.
-/

namespace FileServer.Service

open FileServer.Relational FileServer.Transition

def everyRequest (collate : Bytes → Bytes) := processes collate fun _ => true

abbrev ServiceState := Interleaved Request UploadData Call Call.Answer World Failure Reply
abbrev ServiceEvent := Event ServiceState (Move Request UploadData Outcome)

def Deleted (state : ServiceState) (fileId : Int) : Prop :=
  ∃ info, state.scene.world.fileInfo.get? fileId = some info ∧ info.status = .kDeleted

def Request.finalizes : Request → Option Int
  | .uploadFinalize fileId _ | .finalizeUpload fileId _ => some fileId
  | _ => none

def StoresCompleted (event : ServiceEvent) (fileId : Int) : Prop :=
  ∃ job outcome request next, event.action = .advance job outcome ∧
    event.before.jobs[job]? = some ⟨request, .call (.updateStatus fileId .kCompleted) next⟩ ∧
    request.finalizes = some fileId ∧ (outcome.succeeds = true ∨ outcome.applied = true)

theorem Permitted.updateStatus_cases {request : Request} {fileId : Int} {status : FileStatus}
    (permitted : Permitted request (.updateStatus fileId status)) :
    request.finalizes = some fileId ∧ status = .kCompleted ∨ status = .kDeleted := by
  cases request with
  | uploadFinalize | finalizeUpload =>
      obtain ⟨rfl, rfl⟩ := permitted
      exact .inl ⟨rfl, rfl⟩
  | delete => exact .inr permitted.2
  | _ => exact permitted.elim

variable {collate : Bytes → Bytes} {history : List ServiceEvent} {state : ServiceState}

theorem deleted_step_iff (run : Run (everyRequest collate).system history state) {event : ServiceEvent}
    (membership : event ∈ history) {fileId : Int} (deleted : Deleted event.before fileId) :
    Deleted event.after fileId ↔ ¬StoresCompleted event fileId := by
  obtain ⟨info, found, status⟩ := deleted
  obtain ⟨⟨earlier, reached⟩, taken⟩ := run.event membership
  have stepped : (everyRequest collate).step event.before event.action = some event.after := taken
  constructor
  · rintro ⟨info', found', status'⟩ ⟨job, outcome, request, next, action, inJobs, _, applied⟩
    rw [action] at stepped
    obtain ⟨_, call, _, here, after⟩ := Deployment.step_advance_iff.mp stepped
    obtain ⟨rfl, same⟩ := Job.mk.inj (Option.some.inj (inJobs.symm.trans here))
    obtain ⟨rfl, _⟩ := Program.call.inj same
    rw [after] at found'
    have updated : (serve outcome (.updateStatus fileId .kCompleted)
        event.before.scene.world).2.fileInfo.get? fileId =
          some { info with status := .kCompleted } := by
      rw [serve, if_pos applied, World.modifyRow, Table.get?_modify_self, found]
      rfl
    have equal := Option.some.inj (found'.symm.trans updated)
    rw [equal] at status'
    cases status'
  · intro others
    rcases Deployment.scene_of_step stepped with same | ⟨job, outcome, request, call, next, action,
      inJobs, scene⟩
    · exact ⟨info, by rw [same]; exact found, status⟩
    · have rewrites := serve_rewrites outcome call event.before.scene.world fileId
      rw [found] at rewrites
      have after : event.after.scene.world.fileInfo.get? fileId =
          (serve outcome call event.before.scene.world).2.fileInfo.get? fileId := by
        rw [scene]
        rfl
      rw [Deleted, after]
      generalize stands : (serve outcome call event.before.scene.world).2.fileInfo.get? fileId = row
        at rewrites
      cases rewrites with
      | keep => exact ⟨info, rfl, status⟩
      | uploadSize _ uploadSize => exact ⟨_, rfl, status⟩
      | extend _ _ uploading =>
          rw [status] at uploading
          cases uploading
      | status _ stored =>
          have permitted := Deployment.calls_of_run handler_calls reached _
            (List.mem_of_getElem? inJobs)
          obtain ⟨finalizes, rfl⟩ | rfl := permitted.1.updateStatus_cases
          · by_cases applied : outcome.succeeds = true ∨ outcome.applied = true
            · exact absurd ⟨job, outcome, request, next, action, inJobs, finalizes, applied⟩ others
            · rw [serve, if_neg applied, found] at stands
              exact ⟨_, rfl, by rw [← Option.some.inj stands, status]⟩
          · exact ⟨_, rfl, rfl⟩

/-- No request that finalizes a deleted file stores its status. -/
def FinalizedInTime (history : List ServiceEvent) : Prop :=
  ∀ event ∈ history, ∀ fileId, Deleted event.before fileId → ¬StoresCompleted event fileId

/-- Deleted files stay deleted in exactly the runs in which no request that
finalizes one of them stores its status afterwards. -/
theorem deleted_stays_iff (run : Run (everyRequest collate).system history state) :
    ((∀ event ∈ history, ∀ fileId, Deleted event.before fileId → Deleted event.after fileId) ↔
      FinalizedInTime history) ∧
    (FinalizedInTime history → ∀ earlier, Visited history state earlier → ∀ fileId,
      Deleted earlier fileId → Deleted state fileId) := by
  have steps : (∀ event ∈ history, ∀ fileId, Deleted event.before fileId →
      Deleted event.after fileId) ↔ FinalizedInTime history := by
    constructor
    · intro stays event membership fileId deleted
      exact (deleted_step_iff run membership deleted).mp (stays event membership fileId deleted)
    · intro inTime event membership fileId deleted
      exact (deleted_step_iff run membership deleted).mpr (inTime event membership fileId deleted)
  refine ⟨steps, fun inTime => ?_⟩
  have stays := steps.mpr inTime
  clear inTime steps
  induction run with
  | start =>
      rintro earlier (rfl | ⟨_, membership, _⟩) fileId deleted
      · exact deleted
      · cases membership
  | next run stepped inductionHypothesis =>
      rintro earlier (rfl | ⟨event, membership, rfl⟩) fileId deleted
      · exact deleted
      refine stays _ List.mem_cons_self fileId ?_
      have before := fun event older => stays event (List.mem_cons_of_mem _ older)
      rcases List.mem_cons.mp membership with rfl | older
      · exact deleted
      · exact inductionHypothesis before _ (.inr ⟨event, older, rfl⟩) fileId deleted

section Revival

/-- A file is uploaded; it is deleted after a request that finalizes it has
looked at the disk. -/
def overtakenMoves : List (Move Request UploadData Outcome) :=
  [.request (.uploadStart 1 [97] 1 []), .advance 0 {}, .advance 0 {}, .advance 0 {}, .advance 0 {},
    .request (.uploadData 1 1 [7] 0), .advance 1 {}, .advance 1 {}, .advance 1 {},
    .request (.uploadFinalize 1 1), .advance 2 {}, .advance 2 {},
    .request (.delete 1 1), .advance 3 {}, .advance 3 {}, .advance 3 {}]

def overtaken : ServiceState :=
  ((everyRequest id).system.execute (everyRequest id).system.initial overtakenMoves).get (by decide +kernel)

def revived : ServiceState :=
  ((everyRequest id).system.step overtaken (.advance 2 {})).get (by decide +kernel)

theorem overtaken_run : Run (everyRequest id).system
    ((everyRequest id).system.events (everyRequest id).system.initial overtakenMoves) overtaken :=
  (everyRequest id).system.run overtakenMoves (by decide +kernel)

/-- Up to then the file has stayed deleted in time. -/
theorem deleted_stays_overtaken :
    (∀ event ∈ (everyRequest id).system.events (everyRequest id).system.initial overtakenMoves,
      ∀ fileId, Deleted event.before fileId → Deleted event.after fileId) ↔
      FinalizedInTime ((everyRequest id).system.events (everyRequest id).system.initial overtakenMoves) :=
  (deleted_stays_iff overtaken_run).1

/-- The file is completed after it has been deleted. -/
theorem deleted_revives : ¬∀ collate history state, Run (everyRequest collate).system history state →
    ∀ earlier, Visited history state earlier → ∀ fileId,
      Deleted earlier fileId → Deleted state fileId := by
  intro stays
  have moved : (everyRequest id).system.step overtaken (.advance 2 {}) = some revived :=
    (Option.some_get _).symm
  have run := overtaken_run.next moved
  have deleted : (overtaken.scene.world.fileInfo.get? 1).map FileInfo.status = some .kDeleted := by
    decide +kernel
  have completed : (revived.scene.world.fileInfo.get? 1).map FileInfo.status =
      some .kCompleted := by
    decide +kernel
  obtain ⟨info, found, status⟩ := Option.map_eq_some_iff.mp deleted
  obtain ⟨info', found', status'⟩ := stays id _ _ run overtaken (.inr ⟨_, List.mem_cons_self, rfl⟩) 1
    ⟨info, found, status⟩
  rw [found', Option.map_some, status'] at completed
  cases completed

end Revival

end FileServer.Service
