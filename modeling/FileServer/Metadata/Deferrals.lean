import FileServer.Metadata.Invariant

/-!
# When a cleanup becomes due

A pending cleanup keeps its lease until it is claimed.  `retire` schedules the
cleanup of every copy for the same time, unless one is outstanding already;
the other transactions delete nothing and leave pending cleanups alone.
-/

namespace FileServer.Metadata

open FileServer.Relational FileServer.Transition

namespace Database

/-- The cleanup of the copy is pending and not due before `bound`. -/
def Scheduled (db : Database) (cid : Ident) (nid : NodeId) (bound : Time) : Prop :=
  ∃ task, db.tasks.get? ⟨.delete, cid, some nid⟩ = some task ∧ task.state = .pending ∧
    bound ≤ task.lease

/-- It would be, once it were enqueued for the time `lease`. -/
def Delays (db : Database) (cid : Ident) (nid : NodeId) (bound lease : Time) : Prop :=
  db.Scheduled cid nid bound ∨
    ((∀ task, db.tasks.get? ⟨.delete, cid, some nid⟩ = some task → task.state = .done) ∧
      bound ≤ lease)

/-- Nothing is deleted, and pending cleanups stay as they are. -/
structure Quiet (db db' : Database) : Prop where
  live : ∀ cid, db'.phase cid = some .deleted → db.phase cid = some .deleted
  pending : ∀ cid nid task, db.tasks.get? ⟨.delete, cid, some nid⟩ = some task →
    task.state = .pending → db'.tasks.get? ⟨.delete, cid, some nid⟩ = some task

/-- The cleanup of a copy is scheduled, or will be when its object is deleted. -/
def Waits (db : Database) (cid : Ident) (nid : NodeId) (bound lease : Time) : Prop :=
  db.Scheduled cid nid bound ∨
    (db.phase cid ≠ some .deleted ∧ (∃ row, db.replicas.get? (cid, nid) = some row) ∧
      db.Delays cid nid bound lease)

variable {db db' : Database} {c : Config} {now : Time}

section Enqueueing

variable {cid : Ident} {nid : NodeId} {bound lease : Time}

theorem Scheduled.congr (scheduled : db.Scheduled cid nid bound)
    (task : db'.tasks.get? ⟨.delete, cid, some nid⟩ = db.tasks.get? ⟨.delete, cid, some nid⟩) :
    db'.Scheduled cid nid bound := by
  unfold Scheduled at scheduled ⊢
  rwa [task]

theorem Delays.congr (delays : db.Delays cid nid bound lease)
    (task : db'.tasks.get? ⟨.delete, cid, some nid⟩ = db.tasks.get? ⟨.delete, cid, some nid⟩) :
    db'.Delays cid nid bound lease := by
  rcases delays with scheduled | ⟨finished, early⟩
  · exact .inl (scheduled.congr task)
  · exact .inr ⟨fun row stored => finished row (task ▸ stored), early⟩

theorem enqueue_outstanding_kept {key : TaskKey} {task : TaskRow} (kind : TaskKind) (other : Ident)
    (node : Option NodeId) (delay : Nat) (stored : db.tasks.get? key = some task)
    (active : task.state ≠ .done) :
    (db.enqueue now kind other node delay).tasks.get? key = some task := by
  rcases db.enqueue_tasks now kind other node delay key with kept | ⟨_, finished, _⟩
  · rw [kept, stored]
  · exact absurd (finished task stored) active

theorem Scheduled.enqueue (scheduled : db.Scheduled cid nid bound) (kind : TaskKind)
    (other : Ident) (node : Option NodeId) (delay : Nat) :
    (db.enqueue now kind other node delay).Scheduled cid nid bound := by
  obtain ⟨task, stored, pending, late⟩ := scheduled
  exact ⟨task, enqueue_outstanding_kept kind other node delay stored (by simp [pending]), pending,
    late⟩

theorem Delays.enqueued {delay : Nat} (positive : delay ≠ 0)
    (delays : db.Delays cid nid bound (now + delay)) :
    (db.enqueue now .delete cid (some nid) delay).Scheduled cid nid bound := by
  rcases delays with scheduled | ⟨finished, early⟩
  · exact scheduled.enqueue _ _ _ _
  · rw [enqueue_eq]
    unfold Scheduled
    simp only [Table.get?_upsert, if_true, if_neg positive, Option.some.injEq, exists_eq_left']
    cases stored : db.tasks.get? ⟨.delete, cid, some nid⟩ with
    | none => simpa using early
    | some task => simpa [finished task stored] using early

theorem Delays.enqueue {delay : Nat} (positive : delay ≠ 0)
    (delays : db.Delays cid nid bound (now + delay)) (other : Ident) (node : NodeId) :
    (db.enqueue now .delete other (some node) delay).Delays cid nid bound (now + delay) := by
  by_cases same : (⟨.delete, cid, some nid⟩ : TaskKey) = ⟨.delete, other, some node⟩
  · simp only [TaskKey.mk.injEq, Option.some.injEq, true_and] at same
    obtain ⟨rfl, rfl⟩ := same
    exact .inl (delays.enqueued positive)
  · rcases delays with scheduled | ⟨finished, early⟩
    · exact .inl (scheduled.enqueue _ _ _ _)
    · refine .inr ⟨fun task stored => finished task ?_, early⟩
      rw [enqueue_eq] at stored
      simpa only [Table.get?_upsert, if_neg same] using stored

end Enqueueing

namespace Quiet

theorem ofSame (same : SameLife db db') (tasks : db'.tasks = db.tasks) : Quiet db db' where
  live := fun cid deleted => same.phase cid ▸ deleted
  pending := fun _ _ _ stored _ => tasks ▸ stored

theorem refl (db : Database) : Quiet db db := .ofSame ⟨rfl, rfl, rfl, rfl⟩ rfl

theorem trans {db'' : Database} (earlier : Quiet db db') (later : Quiet db' db'') :
    Quiet db db'' where
  live := fun cid deleted => earlier.live cid (later.live cid deleted)
  pending := fun cid nid task stored pending =>
    later.pending cid nid task (earlier.pending cid nid task stored pending) pending

theorem ofTasks (same : SameLife db db')
    (pending : ∀ cid nid task, db.tasks.get? ⟨.delete, cid, some nid⟩ = some task →
      task.state = .pending → db'.tasks.get? ⟨.delete, cid, some nid⟩ = some task) :
    Quiet db db' :=
  ⟨fun cid deleted => same.phase cid ▸ deleted, pending⟩

theorem scheduled (quiet : Quiet db db') {cid : Ident} {nid : NodeId} {bound : Time}
    (scheduled : db.Scheduled cid nid bound) : db'.Scheduled cid nid bound := by
  obtain ⟨task, stored, pending, late⟩ := scheduled
  exact ⟨task, quiet.pending cid nid task stored pending, pending, late⟩

theorem enqueue (now : Time) (kind : TaskKind) (cid : Ident) (node : Option NodeId) (delay : Nat) :
    Quiet db (db.enqueue now kind cid node delay) :=
  .ofTasks ⟨rfl, rfl, rfl, rfl⟩ fun _ _ _ stored pending =>
    enqueue_outstanding_kept kind cid node delay stored (by simp [pending])

theorem modifyTask {key : TaskKey} (f : TaskRow → TaskRow)
    (kept : ∀ task, db.tasks.get? key = some task → task.state = .pending → f task = task) :
    Quiet db (db.modifyTask key f) := by
  refine .ofTasks ⟨rfl, rfl, rfl, rfl⟩ fun cid nid task stored pending => ?_
  simp only [Database.modifyTask, Table.get?_modify]
  split
  · next same => rw [stored, Option.map_some, kept task (same ▸ stored) pending]
  · exact stored

theorem finish {job : Job} (fenced : db.Fence now job) (f : TaskRow → TaskRow) :
    Quiet db (db.modifyTask job.task fun row =>
      if row.token = some job.token then f row else row) := by
  obtain ⟨row, stored, _, running, _⟩ := fenced
  refine .modifyTask _ fun task located pending => ?_
  obtain rfl := Option.some.inj (stored.symm.trans located)
  simp [running] at pending

theorem uncharge (cid : Ident) (nid : NodeId) (length : Nat) :
    Quiet db (db.uncharge cid nid length) := by
  rw [uncharge_eq]
  exact .ofSame ⟨rfl, rfl, rfl, rfl⟩ rfl

theorem settle (cid : Ident) (nid : NodeId) (length : Nat) :
    Quiet db (db.settle cid nid length) := by
  rw [settle_eq]
  exact .ofSame ⟨rfl, rfl, rfl, rfl⟩ rfl

theorem modifyChunk (cid : Ident) (f : ChunkRow → ChunkRow)
    (kept : ∀ row, (f row).upload = row.upload) :
    Quiet db { db with chunks := db.chunks.modify cid f } where
  live := by
    intro other deleted
    have same : Database.phase { db with chunks := db.chunks.modify cid f } other =
        db.phase other := by
      apply phase_congr
      · rfl
      · rfl
      simp only [Table.get?_modify]
      split
      · cases db.chunks.get? other <;> simp [kept]
      · rfl
    exact same ▸ deleted
  pending := fun _ _ _ stored _ => stored

theorem init (consistent : Consistent db) {owner name : String} {size : Int} {ident : Nat → Ident}
    {reply : Reply} (initialized : Database.init c now db owner size name ident = .ok (reply, db')) :
    Quiet db db' := by
  obtain ⟨creation, opened, created, _, _, _, tasks, _⟩ := init_creation consistent initialized
  refine ⟨fun cid deleted => ?_, fun _ _ _ stored _ => by rwa [created.tasks, tasks]⟩
  rcases creation.phase consistent.linked cid with same | ⟨staging, _⟩
  · exact same ▸ deleted
  · simp [staging] at deleted

theorem confirmCommit {op : Confirming} {bytes : Nat}
    (committed : db.confirmCommit c now op = .ok (bytes, db')) : Quiet db db' := by
  obtain ⟨_, _, settled, _, _, _, _, _, _, executed, rfl⟩ := confirmCommit_ok committed
  refine Quiet.trans ?_ (.modifyChunk op.chunk _ fun _ => rfl)
  refine foldlM_invariant (Quiet db) _ op.positions ?_ executed (.refl db)
  intro middle position next _ quiet body
  obtain ⟨row, _, rfl⟩ := confirmReplica_ok body
  split
  · exact quiet.trans (.settle _ _ _)
  · exact quiet

theorem reverify {view : NodeView} {check : Check} {valid : Bool}
    (judged : db.reverify view check valid = .ok db') : Quiet db db' := by
  obtain ⟨_, _, _, _, ⟨_, _, marked, shape, rfl⟩ | ⟨_, rfl⟩⟩ := reverify_ok judged
  · have kept : Quiet db marked := shape ▸ .ofSame ⟨rfl, rfl, rfl, rfl⟩ rfl
    split
    · exact kept.trans (.uncharge check.chunk view.node check.length)
    · exact kept
  · exact .refl _

theorem reviewFile (view : NodeView) (cid : Ident) : Quiet db (db.reviewFile c now view cid) := by
  unfold Database.reviewFile
  split
  · exact .enqueue _ _ _ _ _
  · split
    · exact .enqueue _ _ _ _ _
    · split
      · exact .refl db
      · split
        · exact .enqueue _ _ _ _ _
        · exact .refl db

theorem register {beat : Beat} (accepted : db.register c beat = .ok db') : Quiet db db' where
  live := by
    intro cid deleted
    have registration := register_ok accepted
    rwa [phase_congr registration.objects registration.uploads (by rw [registration.chunks])]
      at deleted
  pending := fun _ _ _ stored _ => by rwa [(register_ok accepted).tasks]

theorem deleteBegin {job : Job} {deletion : Deletion}
    (begun : db.deleteBegin c now job = .ok (deletion, db')) : Quiet db db' := by
  obtain ⟨_, _, _, _, _, _, _, rfl⟩ := deleteBegin_ok begun
  exact .ofSame ⟨rfl, rfl, rfl, rfl⟩ rfl

theorem deleteCommit {job : Job} {deletion : Deletion}
    (committed : db.deleteCommit now job deletion = .ok db') : Quiet db db' := by
  obtain ⟨_, uncharged, fenced, _, _, _, released, rfl⟩ := deleteCommit_ok committed
  have given : Quiet db uncharged ∧ uncharged.tasks = db.tasks := by
    cases sized : deletion.length with
    | none =>
        simp only [sized, Option.elim_none] at released
        exact ⟨released ▸ .refl db, by rw [released]⟩
    | some length =>
        simp only [sized, Option.elim_some] at released
        exact ⟨released ▸ .uncharge _ _ _, by rw [released, uncharge_eq]⟩
  have marked : Quiet uncharged (uncharged.modifyReplica job.task.chunk deletion.node fun row =>
      if row.state = .deleting then { row with state := .gone } else row) :=
    .ofSame ⟨rfl, rfl, rfl, rfl⟩ rfl
  have held : (uncharged.modifyReplica job.task.chunk deletion.node fun row =>
      if row.state = .deleting then { row with state := .gone } else row).Fence now job := by
    unfold Fence at fenced ⊢
    exact given.2 ▸ fenced
  exact (given.1.trans marked).trans (.finish held _)

theorem repairBegin {job : Job} {result : Option Repair}
    (begun : db.repairBegin c now job = .ok (result, db')) : Quiet db db' := by
  obtain ⟨_, _, _, fenced, _, _, _, _, outcome⟩ := repairBegin_ok begun
  rcases outcome with ⟨_, _, rfl⟩ | ⟨_, _, _, _, targeted, _, _⟩
  · exact .finish fenced _
  · rcases targeted.choice with ⟨_, _, _, rfl⟩ | ⟨_, _, _, _, _, rfl⟩
    · exact .refl _
    · exact .ofSame ⟨rfl, rfl, rfl, rfl⟩ rfl

theorem repairCommit {job : Job} {repair : Repair}
    (committed : db.repairCommit c now job repair = .ok db') : Quiet db db' := by
  obtain ⟨_, _, _, copied, fenced, _, _, _, _, _, _, _, _, outcome, rfl⟩ :=
    repairCommit_ok committed
  have given : Quiet db copied ∧ copied.tasks.get? job.task = db.tasks.get? job.task := by
    obtain ⟨row, stored, _, running, _⟩ := fenced
    rcases outcome with ⟨_, rfl⟩ | ⟨_, rfl⟩
    · have released : Quiet db ((db.uncharge job.task.chunk repair.target repair.length).modifyReplica
          job.task.chunk repair.target fun row => { row with state := .bad }) :=
        (Quiet.uncharge job.task.chunk repair.target repair.length).trans
          (.ofSame ⟨rfl, rfl, rfl, rfl⟩ rfl)
      refine ⟨released.trans (.enqueue _ _ _ _ _), ?_⟩
      rw [stored]
      refine enqueue_outstanding_kept _ _ _ _ ?_ (by simp [running])
      rw [uncharge_eq]
      exact stored
    · refine ⟨.settle job.task.chunk repair.target repair.length, ?_⟩
      rw [settle_eq]
  have held : copied.Fence now job := by
    unfold Fence at fenced ⊢
    rwa [given.2]
  exact given.1.trans (.finish held _)

theorem failTask (job : Job) (reason : String) : Quiet db (db.failTask now job reason) := by
  refine .modifyTask _ fun task _ pending => ?_
  rw [if_neg (by simp [pending])]

end Quiet

section Retiring

variable {cid : Ident} {nid : NodeId} {bound : Time}

theorem retireReplica_tasks (entry : Ident × NodeId × Charge × Nat) (key : TaskKey) :
    (retireReplica c now db entry).tasks.get? key =
      (db.enqueue now .delete entry.1 (some entry.2.1) (c.authTtl + 30)).tasks.get? key := by
  rcases entry with ⟨cid, nid, charge, length⟩
  have released : (if charge = .reserved then db.uncharge cid nid length else db).tasks =
      db.tasks := by
    split
    · rw [uncharge_eq]
    · rfl
  simp only [retireReplica, enqueue_eq, modifyReplica, released]

theorem retireLoop_delays (entries : List (Ident × NodeId × Charge × Nat))
    (delays : db.Delays cid nid bound (now + ↑(c.authTtl + 30))) :
    (entries.foldl (retireReplica c now) db).Delays cid nid bound (now + ↑(c.authTtl + 30)) ∧
      ((cid, nid) ∈ entries.map entryKey →
        (entries.foldl (retireReplica c now) db).Scheduled cid nid bound) := by
  induction entries generalizing db with
  | nil => exact ⟨delays, by simp⟩
  | cons entry rest inductionHypothesis =>
      have next := (delays.enqueue (by omega) entry.1 entry.2.1).congr
        (retireReplica_tasks (c := c) entry _)
      refine ⟨(inductionHypothesis next).1, fun listed => ?_⟩
      rcases List.mem_cons.mp listed with same | later
      · obtain ⟨rfl, rfl⟩ := Prod.mk.inj same
        have first := (delays.enqueued (by omega)).congr (retireReplica_tasks (c := c) entry _)
        refine foldl_invariant (fun db : Database => db.Scheduled entry.1 entry.2.1 bound) _ rest
          ?_ first
        intro middle other _ scheduled
        exact (scheduled.enqueue _ _ _ _).congr (retireReplica_tasks other _)
      · exact (inductionHypothesis next).2 later

/-- So does `retire`: its last update concerns repairs only. -/
theorem Waits.retire (consistent : Consistent db) {upload : Ident} {row : UploadRow}
    (stored : db.uploads.get? upload = some row) (state : UploadState)
    (waits : db.Waits cid nid bound (now + ↑(c.authTtl + 30))) :
    (Database.retire c now db upload state).Waits cid nid bound (now + ↑(c.authTtl + 30)) := by
  obtain ⟨looped, retirement⟩ := retire_ok c now stored state
  have tasks : (Database.retire c now db upload state).tasks.get? ⟨.delete, cid, some nid⟩ =
      ((db.uploadReplicas upload).foldl (retireReplica c now)
        (db.closeUpload upload row.object state)).tasks.get? ⟨.delete, cid, some nid⟩ := by
    rw [retire_eq c now stored]
    simp
  have delays : db.Delays cid nid bound (now + ↑(c.authTtl + 30)) :=
    waits.elim .inl fun later => later.2.2
  have closedDelays : (db.closeUpload upload row.object state).Delays cid nid bound
      (now + ↑(c.authTtl + 30)) := delays.congr rfl
  obtain ⟨kept, listed⟩ := retireLoop_delays (db.uploadReplicas upload) closedDelays
  rcases waits with scheduled | ⟨live, ⟨replica, present⟩, _⟩
  · left
    have closed : (db.closeUpload upload row.object state).Scheduled cid nid bound :=
      scheduled.congr rfl
    refine Scheduled.congr (foldl_invariant (fun db : Database => db.Scheduled cid nid bound)
      (retireReplica c now) _ ?_ closed) tasks
    intro middle other _ scheduled
    exact (scheduled.enqueue _ _ _ _).congr (retireReplica_tasks other _)
  · obtain ⟨chunk, located⟩ := consistent.replicaChunk _ _ replica present
    by_cases owned : chunk.upload = upload
    · left
      refine (listed (List.mem_map.mpr ⟨(cid, nid, replica.charged, chunk.length), ?_, rfl⟩)).congr
        tasks
      exact mem_uploadReplicas.mpr ⟨replica, chunk, present, located, owned, rfl⟩
    · right
      refine ⟨?_, ?_, kept.congr tasks⟩
      · rwa [phase_of_other consistent.linked stored retirement.objects retirement.uploads
          retirement.chunks located owned]
      · rw [retirement.get?_replicas, present]
        exact ⟨_, rfl⟩

theorem Waits.quiet {lease : Time} (waits : db.Waits cid nid bound lease) (quiet : Quiet db db')
    (deleted : db'.phase cid = some .deleted) : db'.Scheduled cid nid bound := by
  rcases waits with scheduled | ⟨live, _⟩
  · exact quiet.scheduled scheduled
  · exact absurd (quiet.live cid deleted) live

theorem Waits.maintain (consistent : Consistent db)
    (waits : db.Waits cid nid bound (now + ↑(c.authTtl + 30)))
    (deleted : (db.maintain c now).phase cid = some .deleted) :
    (db.maintain c now).Scheduled cid nid bound := by
  have moves : Moves .none [] db (db.refreshHealth c now) := refreshHealth_moves
  have refreshed : (db.refreshHealth c now).Waits cid nid bound (now + ↑(c.authTtl + 30)) := by
    rcases waits with scheduled | ⟨live, present, delays⟩
    · exact .inl (scheduled.congr rfl)
    · refine .inr ⟨?_, present, delays.congr rfl⟩
      have same : (db.refreshHealth c now).phase cid = db.phase cid :=
        SameLife.phase ⟨rfl, rfl, rfl, rfl⟩ cid
      exact same ▸ live
  generalize retired : ((db.refreshHealth c now).expiredUploads now).foldl
    (fun db upload => Database.retire c now db upload .expired) (db.refreshHealth c now) = middle
  have expired : middle.Waits cid nid bound (now + ↑(c.authTtl + 30)) := by
    rw [← retired]
    refine (foldl_invariant (fun middle : Database =>
      Steps .none [] (db.refreshHealth c now) middle ∧
        middle.Waits cid nid bound (now + ↑(c.authTtl + 30))) _ _ ?_ ⟨.refl, refreshed⟩).2
    rintro middle upload listed ⟨steps, kept⟩
    obtain ⟨row, before⟩ := mem_expiredUploads listed
    obtain ⟨row', present, _⟩ := steps.grown.uploads upload row before
    have known := steps.consistent (moves.preserve consistent)
    exact ⟨steps.tail (retire_moves known present (.inr rfl)), kept.retire known present _⟩
  have enqueued : Quiet middle (db.maintain c now) := by
    simp only [Database.maintain, retired]
    refine foldl_invariant (Quiet middle) _ _ ?_ (.refl middle)
    intro later entry _ quiet
    split
    · exact quiet.trans (.enqueue _ _ _ _ _)
    · exact quiet
  exact expired.quiet enqueued deleted

end Retiring

end Database

end FileServer.Metadata
