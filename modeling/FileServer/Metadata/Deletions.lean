import FileServer.Metadata.Asides
import FileServer.Metadata.Room

/-!
# Deletions of copies

A file of a chunk whose object is deleted gets a task of its own when it is
reviewed.  No step but that review makes one outstanding.
-/

namespace FileServer.Metadata

open FileServer.Relational FileServer.Transition

/-- The repair that a task thread has begun. -/
def Worker.repairing : Worker → Option Job
  | .fetching job _ _ | .fetched job _ _ | .putting job _ _ | .stored job _ | .checking job _
  | .verified job _ => some job
  | _ => none

namespace Database

variable {c : Config} {now : Time} {db : Database} {cid other : Ident} {view : NodeView}
  {key : TaskKey}

theorem Outstanding.reviewFile (outstanding : db.Outstanding key) :
    (db.reviewFile c now view other).Outstanding key := by
  unfold Database.reviewFile
  split
  · exact outstanding.enqueue _ _ _ _
  · split
    · exact outstanding.enqueue _ _ _ _
    · split
      · exact outstanding
      · split
        · exact outstanding.enqueue _ _ _ _
        · exact outstanding

theorem reviewFile_tasks (different : key ≠ ⟨.delete, other, some view.node⟩) :
    (db.reviewFile c now view other).tasks.get? key = db.tasks.get? key := by
  have enqueued : ∀ delay, (db.enqueue now .delete other (some view.node) delay).tasks.get? key =
      db.tasks.get? key := by
    intro delay
    rw [enqueue_eq]
    simp [Table.get?_upsert, different]
  unfold Database.reviewFile
  split
  · exact enqueued _
  · split
    · exact enqueued _
    · split
      · rfl
      · split
        · exact enqueued _
        · rfl

theorem reviewFile_deleted (deleted : db.phase cid = some .deleted) :
    (db.reviewFile c now view cid).Outstanding ⟨.delete, cid, some view.node⟩ := by
  cases known : db.chunkObject cid with
  | none => simp [phase, known] at deleted
  | some entry =>
      have ended : entry.2.2.2.state = .deleted := by simpa [phase, known] using deleted
      simp only [Database.reviewFile, known, ended, if_true]
      exact enqueue_outstanding _ _ _ _ _

theorem Outstanding.of_modifyTask {task : TaskKey} {f : TaskRow → TaskRow}
    (outstanding : (db.modifyTask task f).Outstanding key)
    (open_ : ∀ row, db.tasks.get? task = some row → (f row).state ≠ .done → row.state ≠ .done) :
    db.Outstanding key := by
  obtain ⟨row, stored, active⟩ := outstanding
  rw [modifyTask, Table.get?_modify] at stored
  split at stored
  · next same =>
      obtain ⟨old, before, rfl⟩ := Option.map_eq_some_iff.mp stored
      exact ⟨old, before, open_ old (same ▸ before) active⟩
  · exact ⟨row, stored, active⟩

theorem Outstanding.of_tasks {db' : Database} (outstanding : db'.Outstanding key)
    (tasks : db'.tasks = db.tasks) : db.Outstanding key := by
  obtain ⟨row, stored, active⟩ := outstanding
  exact ⟨row, tasks ▸ stored, active⟩

theorem repairBegin_published {db' : Database} {job : Job} {result : Option Repair}
    (begun : db.repairBegin c now job = .ok (result, db')) :
    db.phase job.task.chunk = some .published := by
  obtain ⟨chunk, upload, object, _, recorded, owned, found, published, _⟩ := repairBegin_ok begun
  rw [phase_of_object recorded owned found, published]

theorem deleteBegin_deleted {job : Job} {nid : NodeId} {node : NodeRow} (fenced : db.Fence now job)
    (target : job.task.node = some nid) (located : db.nodes.get? nid = some node)
    (deleted : db.phase job.task.chunk = some .deleted) :
    ∃ deletion db', db.deleteBegin c now job = .ok (deletion, db') ∧ deletion.node = nid ∧
      node.inst = deletion.inst ∧ node.volume = deletion.volume ∧ db'.nodes = db.nodes ∧
      db'.tasks = db.tasks := by
  refine ⟨⟨nid, node.address, node.inst, node.volume,
    (db.chunkObject job.task.chunk).map fun entry => entry.1.length⟩,
    db.modifyReplica job.task.chunk nid fun row => { row with state := .deleting }, ?_,
    rfl, rfl, rfl, rfl, rfl⟩
  simp only [deleteBegin, fence, bind_eq_ok, require_eq_ok, found_eq_ok, pure_eq_ok]
  refine ⟨(), fenced, nid, target, node, located, (), fun entry known live => ?_, rfl⟩
  simp only [phase, Option.mem_def.mp known, Option.map_some, Option.some.injEq] at deleted
  exact absurd deleted live

theorem deleteCommit_ends {job : Job} {deletion : Deletion} {node : NodeRow}
    (fenced : db.Fence now job) (located : db.nodes.get? deletion.node = some node)
    (inst : node.inst = deletion.inst) (volume : node.volume = deletion.volume) :
    ∃ db', db.deleteCommit now job deletion = .ok db' ∧ ¬db'.Outstanding job.task := by
  obtain ⟨db', committed⟩ : ∃ db', db.deleteCommit now job deletion = .ok db' := by
    simp only [deleteCommit, fence, bind_eq_ok, require_eq_ok, found_eq_ok, pure_eq_ok]
    exact ⟨_, (), fenced, node, located, (), ⟨inst, volume⟩, rfl⟩
  refine ⟨db', committed, ?_⟩
  obtain ⟨_, uncharged, _, _, _, _, settled, rfl⟩ := deleteCommit_ok committed
  have tasks : uncharged.tasks = db.tasks := by
    subst settled
    cases deletion.length with
    | none => rfl
    | some length => simp [uncharge_eq]
  obtain ⟨row, stored, token, _⟩ := fenced
  rintro ⟨task, after, active⟩
  rw [finishTask, modifyTask, Table.get?_modify_self, modifyReplica, tasks,
    Option.mem_def.mp stored, Option.map_some, if_pos token, Option.some.injEq] at after
  subst after
  exact active rfl

end Database

section Moves

variable {σ : State} {w : Nat} {action : Action} {db : Database} {cid : Ident} {nid : NodeId}

theorem WorkerMove.repairing {before after : Worker}
    (move : WorkerMove σ w action before after db) {job : Job}
    (repairs : after.repairing = some job) :
    before.repairing = some job ∨ σ.db.phase job.task.chunk = some .published := by
  cases move with
  | repairBegin c job' repair db _ begun =>
      obtain rfl := Option.some.inj repairs
      exact .inr (Database.repairBegin_published begun)
  | fetched | lost | sendPut | putDone | sendStat | statDone => exact .inl repairs
  | _ => cases repairs

theorem WorkerMove.deletions {before after : Worker}
    (move : WorkerMove σ w action before after db)
    (apart : ∀ job, before.repairing = some job → job.task.chunk ≠ cid)
    (outstanding : db.Outstanding ⟨.delete, cid, some nid⟩) :
    σ.db.Outstanding ⟨.delete, cid, some nid⟩ := by
  have finished : ∀ (db : Database) (job : Job),
      (db.finishTask job).Outstanding ⟨.delete, cid, some nid⟩ →
      db.Outstanding ⟨.delete, cid, some nid⟩ := by
    intro db job outstanding
    refine outstanding.of_modifyTask fun row _ active => ?_
    split at active
    · exact absurd rfl active
    · exact active
  cases move with
  | claim c token task next fresh =>
      refine outstanding.of_modifyTask fun row stored _ => ?_
      obtain ⟨first, before, open_, _⟩ := Database.nextTask_eq_some next
      obtain rfl := Option.some.inj (stored.symm.trans before)
      exact open_
  | deleteBegin c job deletion db deletes begun =>
      obtain ⟨_, _, _, _, _, _, _, rfl⟩ := Database.deleteBegin_ok begun
      exact outstanding.of_tasks rfl
  | repairBegin c job repair db _ begun =>
      exact outstanding.of_tasks (Database.repairBegin_undertaken begun).tasks
  | repairExit c job db _ begun =>
      obtain ⟨_, _, _, _, _, _, _, _, outcome⟩ := Database.repairBegin_ok begun
      rcases outcome with ⟨_, _, rfl⟩ | ⟨_, _, _, _, _, _, result⟩
      · exact finished _ job outstanding
      · cases result
  | deleteCommit c job deletion db committed =>
      obtain ⟨_, uncharged, _, _, _, _, settled, rfl⟩ := Database.deleteCommit_ok committed
      refine (finished _ job outstanding).of_tasks ?_
      subst settled
      cases deletion.length with
      | none => rfl
      | some length => simp [Database.uncharge_eq, Database.modifyReplica]
  | repairCommit c job repair db committed =>
      have other := apart job rfl
      obtain ⟨_, _, _, copied, _, _, _, _, _, _, _, _, _, outcome, rfl⟩ :=
        Database.repairCommit_ok committed
      have copies : copied.Outstanding ⟨.delete, cid, some nid⟩ := by
        refine outstanding.of_modifyTask fun row _ active => ?_
        split at active
        · exact absurd rfl active
        · exact active
      obtain ⟨task, stored, active⟩ := copies
      rcases outcome with ⟨_, rfl⟩ | ⟨_, rfl⟩
      · refine ⟨task, ?_, active⟩
        rw [Database.enqueue_eq, Table.get?_upsert, if_neg (by simp [Ne.symm other])] at stored
        simpa [Database.uncharge_eq, Database.modifyReplica] using stored
      · exact ⟨task, by simpa [Database.settle_eq] using stored, active⟩
  | fail job reason =>
      refine outstanding.of_modifyTask fun row _ active => ?_
      split at active
      · next owned => simp [owned.2]
      · exact active
  | _ => exact outstanding

theorem MaintenanceMove.deletions_kept {before after : Maintenance}
    (move : MaintenanceMove σ action before after db) (consistent : Consistent σ.db)
    (settled : σ.db.phase cid ≠ some .staging)
    (outstanding : σ.db.Outstanding ⟨.delete, cid, some nid⟩) :
    db.Outstanding ⟨.delete, cid, some nid⟩ := by
  obtain ⟨task, stored, active⟩ := outstanding
  cases move with
  | maintain c =>
      have apart : Apart cid σ.db (σ.db.maintain c σ.now) := .maintain consistent settled
      exact ⟨task, (apart.deletions _).trans stored, active⟩
  | reverify view check valid left views db judged =>
      refine ⟨task, ?_, active⟩
      obtain ⟨_, _, _, _, outcome⟩ := Database.reverify_ok judged
      rcases outcome with ⟨_, _, marked, rfl, rfl⟩ | ⟨_, rfl⟩
      · rw [Database.uncharge_eq]
        split <;> exact stored
      · exact stored
  | review c view other => exact Database.Outstanding.reviewFile ⟨task, stored, active⟩
  | _ => exact ⟨task, stored, active⟩

theorem MaintenanceMove.deletions_heard {before after : Maintenance}
    (move : MaintenanceMove σ action before after db) (consistent : Consistent σ.db)
    (settled : σ.db.phase cid ≠ some .staging)
    (unheard : ∀ view ids last more views, before = .listing view ids last more views →
      view.node = nid → cid ∉ ids)
    (outstanding : db.Outstanding ⟨.delete, cid, some nid⟩) :
    σ.db.Outstanding ⟨.delete, cid, some nid⟩ := by
  obtain ⟨task, stored, active⟩ := outstanding
  cases move with
  | maintain c =>
      have apart : Apart cid σ.db (σ.db.maintain c σ.now) := .maintain consistent settled
      exact ⟨task, (apart.deletions _).symm.trans stored, active⟩
  | reverify view check valid left views db judged =>
      refine ⟨task, ?_, active⟩
      obtain ⟨_, _, _, _, outcome⟩ := Database.reverify_ok judged
      rcases outcome with ⟨_, _, marked, rfl, rfl⟩ | ⟨_, rfl⟩
      · rw [Database.uncharge_eq] at stored
        split at stored <;> exact stored
      · exact stored
  | review c view other ids last more views =>
      refine ⟨task, ?_, active⟩
      rw [Database.reviewFile_tasks] at stored
      · exact stored
      · rintro same
        cases same
        exact unheard view _ last more views rfl rfl List.mem_cons_self
  | _ => exact ⟨task, stored, active⟩

end Moves

end FileServer.Metadata
