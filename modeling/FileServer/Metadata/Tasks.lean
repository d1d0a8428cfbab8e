import FileServer.Metadata.Allocation

/-!
# Background tasks

Claiming a task under a lease, the fence, the failure handler, and the two
transactions each of `delete_task` and `repair_task` around their calls to the
storage nodes.
-/

namespace FileServer.Metadata

open FileServer.Relational FileServer.Transition

/-- A claimed task and the token of the claim. -/
structure Job where
  task : TaskKey
  token : Ident
  deriving DecidableEq

/-- What `delete_task` keeps between its transactions. `length` is the chunk
length when the chunk was known. -/
structure Deletion where
  node : NodeId
  address : String
  inst : Ident
  volume : Ident
  length : Option Nat
  deriving DecidableEq

/-- What `repair_task` keeps between its transactions. -/
structure Repair where
  length : Nat
  sha : Option Sha
  upload : Ident
  object : Ident
  required : Nat
  sources : List Source
  target : NodeId
  address : String
  volume : Ident
  inst : Ident
  deriving DecidableEq

namespace Database

/-- The task `claim` takes, if any is due. -/
def nextTask (now : Time) (db : Database) : Option TaskKey :=
  ((db.tasks.rows.filter fun entry =>
      entry.2.state ≠ .done ∧ entry.2.lease < now).insertionSort
    fun first second => first.2.lease ≤ second.2.lease).head?.map Prod.fst

def claim (c : Config) (now : Time) (db : Database) (task : TaskKey) (token : Ident) : Database :=
  db.modifyTask task fun row =>
    { row with
      state := .running, lease := now + c.lease, token := some token
      attempts := row.attempts + 1 }

/-- The claim still owns the task. -/
def Fence (now : Time) (db : Database) (job : Job) : Prop :=
  ∃ row ∈ db.tasks.get? job.task,
    row.token = some job.token ∧ row.state = .running ∧ now < row.lease

instance (now : Time) (db : Database) (job : Job) : Decidable (db.Fence now job) :=
  match stored : db.tasks.get? job.task with
  | none => isFalse (by simp [Fence, stored])
  | some row =>
      decidable_of_iff (row.token = some job.token ∧ row.state = .running ∧ now < row.lease)
        (by simp [Fence, stored])

def fence (now : Time) (db : Database) (job : Job) : Attempt Unit :=
  require (db.Fence now job) ⟨.stale, "task lease expired or invalidated"⟩

/-- The failure handler of `run_once`. -/
def failTask (now : Time) (db : Database) (job : Job) (reason : String) : Database :=
  db.modifyTask job.task fun row =>
    if row.token = some job.token ∧ row.state = .running then
      { row with state := .pending, lease := now + 2, reason := reason }
    else row

/-- `UPDATE ds_tasks SET state='done',lease=0 WHERE task_id=? AND token=?`. -/
def finishTask (db : Database) (job : Job) : Database :=
  db.modifyTask job.task fun row =>
    if row.token = some job.token then { row with state := .done, lease := 0 } else row

/-- The states `delete_task` never deletes under a published object. -/
def Protected (replica : ReplicaRow) : Prop :=
  replica.state = .valid ∨ replica.state = .reserved ∨ replica.state = .unverified

instance (replica : ReplicaRow) : Decidable (Protected replica) :=
  inferInstanceAs (Decidable (_ ∨ _ ∨ _))

/-- First transaction of `delete_task`. -/
def deleteBegin (c : Config) (now : Time) (db : Database) (job : Job) :
    Attempt (Deletion × Database) := do
  fence now db job
  let nid ← found job.task.node ⟨.unavailable, "unknown node"⟩
  let node ← found (db.nodes.get? nid) ⟨.unavailable, "unknown node"⟩
  let known := db.chunkObject job.task.chunk
  require (∀ entry ∈ known, entry.2.2.2.state ≠ .deleted →
      entry.2.2.2.state = .published ∧
      (∀ replica ∈ db.replicas.get? (job.task.chunk, nid), ¬Protected replica) ∧
      entry.2.2.2.replicas ≤ (healthy c now db job.task.chunk).length)
    ⟨.busy, "replica still protected"⟩
  return (⟨nid, node.address, node.inst, node.volume, known.map fun entry => entry.1.length⟩,
    db.modifyReplica job.task.chunk nid fun row => { row with state := .deleting })

/-- Second transaction of `delete_task`. -/
def deleteCommit (now : Time) (db : Database) (job : Job) (deletion : Deletion) :
    Attempt Database := do
  fence now db job
  let node ← found (db.nodes.get? deletion.node) ⟨.internal, "internal service error"⟩
  require (node.inst = deletion.inst ∧ node.volume = deletion.volume)
    ⟨.stale, "node changed during deletion"⟩
  let db := match deletion.length with
    | some length => db.uncharge job.task.chunk deletion.node length
    | none => db
  let db := db.modifyReplica job.task.chunk deletion.node fun row =>
    if row.state = .deleting then { row with state := .gone } else row
  return db.finishTask job

/-- The first transaction of `repair_task` once a copy is known to be needed. -/
def repairTarget (c : Config) (now : Time) (db : Database) (cid : Ident) (chunk : ChunkRow)
    (oid : Ident) (object : ObjectRow) (sources : List Source) : Attempt (Repair × Database) := do
  require (sources ≠ []) ⟨.dataUnavailable, "no healthy source replica; metadata retained"⟩
  let replicas := db.replicasOf cid
  let (target, db) ← match replicas.find? fun entry => entry.2.state = .reserved with
    | some pending => pure (pending.1, db)
    | none => do
        let excluded := (replicas.filter fun entry => entry.2.state ≠ .gone).map Prod.fst
        let (chosen, db) ← reserve c now db cid chunk.length 1 excluded
        let target ← found chosen.head? ⟨.internal, "internal service error"⟩
        pure (target, db)
  let node ← found (db.nodes.get? target) ⟨.unavailable, "repair target unavailable"⟩
  require (node.Alive c now) ⟨.unavailable, "repair target unavailable"⟩
  return (⟨chunk.length, chunk.sha, chunk.upload, oid, object.replicas, sources,
    target, node.address, node.volume, node.inst⟩, db)

/-- First transaction of `repair_task`; `none` when enough copies are healthy. -/
def repairBegin (c : Config) (now : Time) (db : Database) (job : Job) :
    Attempt (Option Repair × Database) := do
  fence now db job
  let (chunk, _, oid, object) ← found (db.chunkObject job.task.chunk)
    ⟨.internal, "internal service error"⟩
  require (object.state = .published) ⟨.deleted, "object no longer published"⟩
  let sources := healthy c now db job.task.chunk
  if object.replicas ≤ sources.length then
    return (none, db.finishTask job)
  else
    let (repair, db) ← repairTarget c now db job.task.chunk chunk oid object sources
    return (some repair, db)

/-- Second transaction of `repair_task`. -/
def repairCommit (c : Config) (now : Time) (db : Database) (job : Job) (repair : Repair) :
    Attempt Database := do
  fence now db job
  let object ← found (db.objects.get? repair.object) ⟨.internal, "internal service error"⟩
  require (object.state = .published) ⟨.deleted, "object deleted before repair publication"⟩
  let node ← found (db.nodes.get? repair.target) ⟨.internal, "internal service error"⟩
  require (node.volume = repair.volume ∧ node.inst = repair.inst) ⟨.stale, "target restarted"⟩
  let replica ← found (db.replicas.get? (job.task.chunk, repair.target))
    ⟨.internal, "internal service error"⟩
  require (replica.state = .reserved ∧ replica.charged = .reserved)
    ⟨.stale, "repair reservation invalidated"⟩
  let db :=
    if repair.required ≤ (healthy c now db job.task.chunk).length then
      let db := db.uncharge job.task.chunk repair.target repair.length
      let db := db.modifyReplica job.task.chunk repair.target fun row =>
        { row with state := .bad }
      db.enqueue now .delete job.task.chunk (some repair.target) (c.authTtl + 30)
    else db.settle job.task.chunk repair.target repair.length
  return db.modifyTask job.task fun row =>
    if row.token = some job.token then { row with state := .done, lease := 0, reason := "" }
    else row

end Database

end FileServer.Metadata
