import FileServer.Metadata.CommandMoves
import FileServer.Metadata.TaskMoves
import FileServer.Metadata.Threads

/-!
# Transactions aside from a chunk

The background transactions leave the copies of every chunk alone that they
are not about.
-/

namespace FileServer.Metadata

open FileServer.Relational FileServer.Transition

/-- The copies of the chunk, all chunks, and the object of this one are left
alone. -/
structure Aside (cid : Ident) (db db' : Database) : Prop where
  rows : ∀ nid, db'.replicas.get? (cid, nid) = db.replicas.get? (cid, nid)
  chunks : db'.chunks = db.chunks
  known : db'.chunkObject cid = db.chunkObject cid

namespace Aside

variable {cid other : Ident} {nid : NodeId} {length : Nat} {db db' db'' : Database} {c : Config}
  {now : Time}

theorem refl (cid : Ident) (db : Database) : Aside cid db db := ⟨fun _ => rfl, rfl, rfl⟩

theorem trans (earlier : Aside cid db db') (later : Aside cid db' db'') : Aside cid db db'' where
  rows := fun nid => (later.rows nid).trans (earlier.rows nid)
  chunks := later.chunks.trans earlier.chunks
  known := later.known.trans earlier.known

/-- Objects, uploads and chunks stay as they are. -/
theorem of_same (same : SameLife db db')
    (rows : ∀ nid, db'.replicas.get? (cid, nid) = db.replicas.get? (cid, nid)) :
    Aside cid db db' where
  rows := rows
  chunks := same.chunks
  known := by simp only [Database.chunkObject, same.chunks, same.uploads, same.objects]

theorem modifyTask (cid : Ident) (db : Database) (key : TaskKey) (f : TaskRow → TaskRow) :
    Aside cid db (db.modifyTask key f) :=
  of_same ⟨rfl, rfl, rfl, rfl⟩ fun _ => rfl

theorem enqueue (cid : Ident) (db : Database) (now : Time) (kind : TaskKind) (node : Option NodeId)
    (delay : Nat) : Aside cid db (db.enqueue now kind other node delay) :=
  of_same ⟨rfl, rfl, rfl, rfl⟩ fun _ => rfl

theorem modifyReplica (different : cid ≠ other) (f : ReplicaRow → ReplicaRow) :
    Aside cid db (db.modifyReplica other nid f) :=
  of_same ⟨rfl, rfl, rfl, rfl⟩ fun node =>
    Table.get?_modify_of_ne _ _ (by simp [different])

theorem uncharge (different : cid ≠ other) : Aside cid db (db.uncharge other nid length) := by
  rw [db.uncharge_eq]
  exact of_same ⟨rfl, rfl, rfl, rfl⟩ fun node => Table.get?_modify_of_ne _ _ (by simp [different])

theorem settle (different : cid ≠ other) : Aside cid db (db.settle other nid length) := by
  rw [db.settle_eq]
  exact of_same ⟨rfl, rfl, rfl, rfl⟩ fun node => Table.get?_modify_of_ne _ _ (by simp [different])

theorem reserveOn (different : cid ≠ other) (volume : Ident) :
    Aside cid db (db.reserveOn other nid volume length) := by
  rw [db.reserveOn_eq]
  refine of_same ⟨rfl, rfl, rfl, rfl⟩ fun node => ?_
  rw [Table.get?_upsert, if_neg (by simp [different])]

theorem deleteBegin {job : Job} {deletion : Deletion} (different : cid ≠ job.task.chunk)
    (begun : db.deleteBegin c now job = .ok (deletion, db')) : Aside cid db db' := by
  obtain ⟨_, _, _, _, _, _, _, rfl⟩ := Database.deleteBegin_ok begun
  exact modifyReplica different _

theorem deleteCommit {job : Job} {deletion : Deletion} (different : cid ≠ job.task.chunk)
    (committed : db.deleteCommit now job deletion = .ok db') : Aside cid db db' := by
  obtain ⟨_, uncharged, _, _, _, _, settled, rfl⟩ := Database.deleteCommit_ok committed
  have given : Aside cid db uncharged := by
    subst settled
    cases deletion.length with
    | none => exact refl cid db
    | some length => exact uncharge different
  exact (given.trans (modifyReplica different _)).trans (modifyTask cid _ _ _)

theorem repairBegin {job : Job} {result : Option Repair} (different : cid ≠ job.task.chunk)
    (begun : db.repairBegin c now job = .ok (result, db')) : Aside cid db db' := by
  obtain ⟨_, _, _, _, _, _, _, _, outcome⟩ := Database.repairBegin_ok begun
  rcases outcome with ⟨_, _, rfl⟩ | ⟨_, _, target, _, targeted, _⟩
  · exact modifyTask cid _ _ _
  · rcases targeted.choice with ⟨_, _, _, rfl⟩ | ⟨_, _, _, _, _, rfl⟩
    · exact refl cid _
    · exact reserveOn different _

theorem repairCommit {job : Job} {repair : Repair} (different : cid ≠ job.task.chunk)
    (committed : db.repairCommit c now job repair = .ok db') : Aside cid db db' := by
  obtain ⟨_, _, _, copied, _, _, _, _, _, _, _, _, _, outcome, rfl⟩ :=
    Database.repairCommit_ok committed
  refine trans ?_ (modifyTask cid _ _ _)
  rcases outcome with ⟨_, rfl⟩ | ⟨_, rfl⟩
  · exact ((uncharge different).trans (modifyReplica different _)).trans (enqueue cid _ _ _ _ _)
  · exact settle different

theorem reviewFile {view : NodeView} : Aside cid db (db.reviewFile c now view other) := by
  unfold Database.reviewFile
  split
  · exact enqueue cid _ _ _ _ _
  · split
    · exact enqueue cid _ _ _ _ _
    · split
      · exact refl cid _
      · split
        · exact enqueue cid _ _ _ _ _
        · exact refl cid _

theorem reverify {view : NodeView} {check : Check} {valid : Bool} (different : cid ≠ check.chunk)
    (judged : db.reverify view check valid = .ok db') : Aside cid db db' := by
  obtain ⟨_, _, _, _, outcome⟩ := Database.reverify_ok judged
  rcases outcome with ⟨_, _, marked, rfl, rfl⟩ | ⟨_, rfl⟩
  · split
    · exact (modifyReplica different _).trans (uncharge different)
    · exact modifyReplica different _
  · exact refl cid _

theorem register {beat : Beat} (registration : Database.Registration c db db' beat)
    (settled : ¬db.Remounts beat) : Aside cid db db' where
  rows := by
    intro nid
    simp [registration.get?_replicas, settled]
  chunks := registration.chunks
  known := by
    simp only [Database.chunkObject, registration.chunks, registration.uploads,
      registration.objects]

theorem retire (consistent : Consistent db) {upload : Ident} {row : UploadRow}
    (state : UploadState) (stored : db.uploads.get? upload = some row)
    (other : ∀ chunk, db.chunks.get? cid = some chunk → chunk.upload ≠ upload) :
    Aside cid db (Database.retire c now db upload state) := by
  obtain ⟨looped, retirement⟩ := Database.retire_ok c now stored state
  refine ⟨fun nid => ?_, retirement.chunks, ?_⟩
  · rw [retirement.get?_replicas]
    have apart : ¬∃ chunk ∈ db.chunks.get? cid, chunk.upload = upload := by
      rintro ⟨chunk, present, same⟩
      exact other chunk present same
    simp only [apart, if_false, Option.map_id']
  · simp only [Database.chunkObject, retirement.chunks, retirement.uploads, retirement.objects]
    cases present : db.chunks.get? cid with
    | none => rfl
    | some chunk =>
        have different := other chunk present
        simp only [Option.bind_some, Table.get?_modify_of_ne _ _ different]
        cases owned : db.uploads.get? chunk.upload with
        | none => rfl
        | some owner =>
            have apart : owner.object ≠ row.object := fun same =>
              different (consistent.linked.uploadUnique _ _ _ _ owned stored same)
            simp only [Option.bind_some, Table.get?_modify_of_ne _ _ apart]

end Aside

/-- The deletions of the chunk's copies are left alone as well. -/
structure Apart (cid : Ident) (db db' : Database) : Prop extends Aside cid db db' where
  deletions : ∀ nid, db'.tasks.get? ⟨.delete, cid, nid⟩ = db.tasks.get? ⟨.delete, cid, nid⟩

namespace Apart

variable {cid : Ident} {db db' db'' : Database} {c : Config} {now : Time}

theorem refl (cid : Ident) (db : Database) : Apart cid db db := ⟨.refl cid db, fun _ => rfl⟩

theorem trans (earlier : Apart cid db db') (later : Apart cid db' db'') : Apart cid db db'' :=
  ⟨earlier.toAside.trans later.toAside,
    fun nid => (later.deletions nid).trans (earlier.deletions nid)⟩

theorem retire (consistent : Consistent db) {upload : Ident} {row : UploadRow}
    (state : UploadState) (stored : db.uploads.get? upload = some row)
    (other : ∀ chunk, db.chunks.get? cid = some chunk → chunk.upload ≠ upload) :
    Apart cid db (Database.retire c now db upload state) := by
  refine ⟨.retire consistent state stored other, fun nid => ?_⟩
  obtain ⟨looped, retirement⟩ := Database.retire_ok c now stored state
  rw [retirement.tasks]
  rcases retirement.loop.tasks ⟨.delete, cid, nid⟩ with kept | ⟨⟨entry, listed, same⟩, _⟩
  · rw [kept]
    simp [Database.closeUpload]
  · obtain ⟨replica, chunk, _, located, owned, _⟩ := Database.mem_uploadReplicas.mp listed
    cases same
    exact absurd owned (other chunk located)

theorem expire (consistent : Consistent db) (settled : db.phase cid ≠ some .staging)
    (uploads : List Ident) (opened : ∀ upload ∈ uploads, ∃ row,
      db.uploads.get? upload = some row ∧ row.state = .uploading) :
    Apart cid db (uploads.foldl (fun db upload => Database.retire c now db upload .expired) db) := by
  refine (foldl_invariant (fun middle => Steps .none [] db middle ∧ Apart cid db middle) _ uploads
    ?_ ⟨.refl, refl cid db⟩).2
  rintro middle upload membership ⟨steps, apart⟩
  obtain ⟨row, before, uploading⟩ := opened upload membership
  obtain ⟨row', stored, _⟩ := steps.grown.uploads upload row before
  have consistent' := steps.consistent consistent
  refine ⟨steps.tail (Database.retire_moves consistent' stored (.inr rfl)),
    apart.trans (retire consistent' .expired stored ?_)⟩
  rintro chunk present rfl
  rw [apart.chunks] at present
  obtain ⟨object, located⟩ := consistent.linked.uploadObject _ row before
  have staging := (consistent.linked.paired _ row object before located).uploading_iff.mp uploading
  exact settled (by rw [Database.phase_of_object present before located, staging])

/-- `maintain` ends only uploads that are open. -/
theorem expired (consistent : Consistent db) (settled : db.phase cid ≠ some .staging) :
    Apart cid db (((db.refreshHealth c now).expiredUploads now).foldl
      (fun db upload => Database.retire c now db upload .expired) (db.refreshHealth c now)) := by
  have refreshed : Steps .none [] db (db.refreshHealth c now) :=
    .single Database.refreshHealth_moves
  have healthy : Apart cid db (db.refreshHealth c now) :=
    ⟨.of_same ⟨rfl, rfl, rfl, rfl⟩ fun _ => rfl, fun _ => rfl⟩
  refine healthy.trans (expire (refreshed.consistent consistent) settled _ ?_)
  intro upload expired
  obtain ⟨⟨_, row⟩, membership, rfl⟩ := List.mem_map.mp (List.mem_of_mem_take expired)
  obtain ⟨listed, selected⟩ := List.mem_filter.mp membership
  exact ⟨row, (db.refreshHealth c now).uploads.mem_rows_iff.mp listed,
    (of_decide_eq_true selected).1⟩

theorem maintain (consistent : Consistent db) (settled : db.phase cid ≠ some .staging) :
    Apart cid db (db.maintain c now) := by
  refine (@expired cid db c now consistent settled).trans ?_
  refine foldl_invariant (Apart cid _) _ _ ?_ (refl cid _)
  intro middle entry _ apart
  split
  · refine apart.trans ⟨.enqueue cid _ _ _ _ _, fun nid => ?_⟩
    rw [Database.enqueue_eq]
    simp [Table.get?_upsert]
  · exact apart

end Apart

theorem WorkerMove.aside {σ : State} {w : Nat} {action : Action} {before after : Worker}
    {db : Database} {cid : Ident} (move : WorkerMove σ w action before after db)
    (apart : ∀ job, before.job? = some job → cid ≠ job.task.chunk) : Aside cid σ.db db := by
  cases move with
  | claim | fail => exact .modifyTask cid _ _ _
  | deleteBegin c job deletion db deletes begun => exact .deleteBegin (apart job rfl) begun
  | repairBegin c job repair db repairs begun => exact .repairBegin (apart job rfl) begun
  | repairExit c job db repairs begun => exact .repairBegin (apart job rfl) begun
  | deleteCommit c job deletion db committed => exact .deleteCommit (apart job rfl) committed
  | repairCommit c job repair db committed => exact .repairCommit (apart job rfl) committed
  | _ => exact .refl cid _

/-- No task thread changes objects, uploads or chunks. -/
theorem WorkerMove.life {σ : State} {w : Nat} {action : Action} {before after : Worker}
    {db : Database} (move : WorkerMove σ w action before after db) : SameLife σ.db db := by
  cases move with
  | deleteBegin c job deletion db deletes begun =>
      obtain ⟨_, _, _, _, _, _, _, rfl⟩ := Database.deleteBegin_ok begun
      exact ⟨rfl, rfl, rfl, rfl⟩
  | repairBegin c job repair db repairs begun =>
      obtain ⟨_, _, _, _, _, _, _, _, outcome⟩ := Database.repairBegin_ok begun
      rcases outcome with ⟨_, result, _⟩ | ⟨_, _, _, _, targeted, _⟩
      · cases result
      · exact targeted.sameLife
  | repairExit c job db repairs begun =>
      obtain ⟨_, _, _, _, _, _, _, _, outcome⟩ := Database.repairBegin_ok begun
      rcases outcome with ⟨_, _, rfl⟩ | ⟨_, _, _, _, _, _, result⟩
      · exact ⟨rfl, rfl, rfl, rfl⟩
      · cases result
  | deleteCommit c job deletion db committed =>
      obtain ⟨_, uncharged, _, _, _, _, settled, rfl⟩ := Database.deleteCommit_ok committed
      subst settled
      cases deletion.length with
      | none => exact ⟨rfl, rfl, rfl, rfl⟩
      | some length =>
          have same := σ.db.uncharge_same job.task.chunk deletion.node length
          exact ⟨same.objects, same.uploads, same.chunks, same.instances⟩
  | repairCommit c job repair db committed =>
      obtain ⟨_, _, _, copied, _, _, _, _, _, _, _, _, _, outcome, rfl⟩ :=
        Database.repairCommit_ok committed
      rcases outcome with ⟨_, rfl⟩ | ⟨_, rfl⟩
      · rw [Database.uncharge_eq]
        exact ⟨rfl, rfl, rfl, rfl⟩
      · rw [Database.settle_eq]
        exact ⟨rfl, rfl, rfl, rfl⟩
  | _ => exact ⟨rfl, rfl, rfl, rfl⟩

theorem MaintenanceMove.aside {σ : State} {action : Action} {before after : Maintenance}
    {db : Database} {cid : Ident} (move : MaintenanceMove σ action before after db)
    (consistent : Consistent σ.db) (settled : σ.db.phase cid ≠ some .staging)
    (apart : ∀ view check valid left views, before = .judged view check valid left views →
      cid ≠ check.chunk) : Aside cid σ.db db := by
  cases move with
  | maintain c => exact (Apart.maintain consistent settled).toAside
  | reverify view check valid left views db judged =>
      exact .reverify (apart view check valid left views rfl) judged
  | review => exact .reviewFile
  | _ => exact .refl cid _

/-- The maintenance thread ends open uploads and nothing else. -/
theorem MaintenanceMove.known {σ : State} {action : Action} {before after : Maintenance}
    {db : Database} {cid : Ident} (move : MaintenanceMove σ action before after db)
    (consistent : Consistent σ.db) (settled : σ.db.phase cid ≠ some .staging) :
    db.chunks = σ.db.chunks ∧ db.chunkObject cid = σ.db.chunkObject cid := by
  cases move with
  | maintain c =>
      have aside : Aside cid σ.db (σ.db.maintain c σ.now) :=
        (Apart.maintain consistent settled).toAside
      exact ⟨aside.chunks, aside.known⟩
  | reverify view check valid left views db judged =>
      obtain ⟨_, _, _, _, outcome⟩ := Database.reverify_ok judged
      rcases outcome with ⟨_, _, marked, rfl, rfl⟩ | ⟨_, rfl⟩
      · rw [Database.uncharge_eq]
        split <;> exact ⟨rfl, rfl⟩
      · exact ⟨rfl, rfl⟩
  | review c view other =>
      have aside : Aside cid σ.db (σ.db.reviewFile c σ.now view other) := .reviewFile
      exact ⟨aside.chunks, aside.known⟩
  | _ => exact ⟨rfl, rfl⟩

namespace Database

variable {c : Config} {now : Time} {db db' : Database} {cid : Ident}

theorem Outstanding.enqueue {key : TaskKey} (outstanding : db.Outstanding key) (kind : TaskKind)
    (other : Ident) (node : Option NodeId) (delay : Nat) :
    (db.enqueue now kind other node delay).Outstanding key := by
  obtain ⟨task, stored, active⟩ := outstanding
  rw [enqueue_eq]
  by_cases same : key = ⟨kind, other, node⟩
  · subst same
    exact ⟨task, by simp [Table.get?_upsert, stored, active], active⟩
  · exact ⟨task, by simp [Table.get?_upsert, same, stored], active⟩

theorem repairLoop_enqueues {required : Nat} (entries : List (Ident × Nat))
    (listed : (cid, required) ∈ entries)
    (few : ∀ db' : Database,
      (∀ nid, db'.replicas.get? (cid, nid) = db.replicas.get? (cid, nid)) →
      (healthy c now db' cid).length < required) :
    (entries.foldl (fun db entry =>
      if (healthy c now db entry.1).length < entry.2 then
        enqueue now db .repair entry.1 none 0
      else db) db).Outstanding ⟨.repair, cid, none⟩ := by
  induction entries generalizing db with
  | nil => cases listed
  | cons entry rest inductionHypothesis =>
      rw [List.foldl_cons]
      rcases List.mem_cons.mp listed with rfl | later
      · rw [if_pos (few db fun _ => rfl)]
        refine foldl_invariant (fun db : Database => db.Outstanding ⟨.repair, cid, none⟩) _ rest ?_
          (enqueue_outstanding now .repair cid none 0)
        intro middle entry _ outstanding
        split
        · exact outstanding.enqueue _ _ _ _
        · exact outstanding
      · apply inductionHypothesis later
        intro db' rows
        refine few db' fun nid => (rows nid).trans ?_
        split <;> rfl

theorem maintain_enqueues (consistent : Consistent db) {chunk : ChunkRow} {upload : UploadRow}
    {oid : Ident} {object : ObjectRow}
    (known : db.chunkObject cid = some (chunk, upload, oid, object))
    (published : object.state = .published)
    (few : ∀ db' : Database,
      (∀ nid, db'.replicas.get? (cid, nid) = db.replicas.get? (cid, nid)) →
      (healthy c now db' cid).length < object.replicas) :
    (db.maintain c now).Outstanding ⟨.repair, cid, none⟩ := by
  have phase : db.phase cid = some .published := by
    rw [Database.phase, known, Option.map_some, published]
  have expired := @Apart.expired cid db c now consistent (by simp [phase])
  refine repairLoop_enqueues _ ?_ fun db' rows =>
    few db' fun nid => (rows nid).trans (expired.rows nid)
  have known' := expired.known.trans known
  obtain ⟨stored, _⟩ := (chunkObject_eq_some _).mp known'
  simp only [publishedChunks, List.mem_insertionSort, List.mem_filterMap]
  exact ⟨(cid, chunk), (Table.mem_rows_iff _).mpr stored, by simp [known', published]⟩

/-- A verdict under the registration that was read. -/
structure Judged (db db' : Database) (view : NodeView) (check : Check) (valid : Bool)
    (row row' : ReplicaRow) : Prop where
  life : SameLife db db'
  before : db.replicas.get? (check.chunk, view.node) = some row
  after : db'.replicas.get? (check.chunk, view.node) = some row'
  others : ∀ cid nid, (cid, nid) ≠ (check.chunk, view.node) →
    db'.replicas.get? (cid, nid) = db.replicas.get? (cid, nid)
  state : row'.state = if row.state = .unverified then (if valid then .valid else .bad)
    else row.state
  charged : row.state = .reserved → row'.charged = row.charged

theorem reverify_judged (consistent : Consistent db) {view : NodeView} {check : Check}
    {valid : Bool} {node : NodeRow} (located : db.nodes.get? view.node = some node)
    (volume : node.volume = view.volume) (inst : node.inst = view.inst)
    (judged : db.reverify view check valid = .ok db') :
    ∃ row row', Judged db db' view check valid row row' := by
  obtain ⟨row, node', stored, located', outcome⟩ := reverify_ok judged
  obtain rfl := Option.some.inj (located.symm.trans located')
  rcases outcome with ⟨_, _, marked, rfl, judgement⟩ | ⟨changed, _⟩
  · have state : (if row.state = .unverified then
        { row with state := if valid then .valid else .bad, volume := view.volume }
      else row).state = if row.state = .unverified then (if valid then .valid else .bad)
        else row.state := by split <;> rfl
    split at judgement
    · next refused =>
        have unread : row.state ≠ .reserved := fun reserved =>
          refused.2 ((consistent.mounted _ _ _ _ stored located (.inl reserved)).trans volume)
        rw [uncharge_eq] at judgement
        subst judgement
        refine ⟨row, { (if row.state = .unverified then
            { row with state := if valid then .valid else .bad, volume := view.volume }
          else row) with charged := .none }, ⟨rfl, rfl, rfl, rfl⟩, stored, ?_, ?_, state,
          fun reserved => absurd reserved unread⟩
        · simp only [modifyReplica, Table.get?_modify_self, stored, Option.map_some]
        · intro cid nid different
          simp only [modifyReplica, Table.get?_modify_of_ne _ _ different]
    · subst judgement
      refine ⟨row, if row.state = .unverified then
          { row with state := if valid then .valid else .bad, volume := view.volume }
        else row, ⟨rfl, rfl, rfl, rfl⟩, stored, ?_, ?_, state, ?_⟩
      · simp only [modifyReplica, Table.get?_modify_self, stored, Option.map_some]
      · intro cid nid different
        simp only [modifyReplica, Table.get?_modify_of_ne _ _ different]
      · intro reserved
        simp [reserved]
  · exact absurd ⟨volume, inst⟩ changed

end Database

end FileServer.Metadata
