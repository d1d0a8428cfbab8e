import FileServer.Metadata.Effects

/-!
# What a transaction can do

Every transaction of the service, or each part of one that loops, changes the
tables by the moves listed here.  Invariants are derived from the moves alone,
so that a change of one transaction touches the proof that it makes these
moves and nothing else.
-/

namespace FileServer.Metadata

open FileServer.Relational

namespace Database

def phase (db : Database) (cid : Ident) : Option ObjectState :=
  (db.chunkObject cid).map fun known => known.2.2.2.state

def lengthOf (db : Database) (cid : Ident) : Nat :=
  (db.chunks.get? cid).elim 0 ChunkRow.length

def Outstanding (db : Database) (key : TaskKey) : Prop :=
  ∃ task, db.tasks.get? key = some task ∧ task.state ≠ .done

def chargedBytes (db : Database) (kind : Charge) (nid : NodeId) : Int :=
  db.replicas.sum fun key row =>
    if key.2 = nid ∧ row.charged = kind then (db.lengthOf key.1 : Int) else 0

/-- Both counters of every node are the sums over its replica rows. -/
def Accounted (db : Database) : Prop :=
  ∀ nid node, db.nodes.get? nid = some node →
    node.reserved = db.chargedBytes .reserved nid ∧ node.usedBytes = db.chargedBytes .used nid

end Database

/-- The row awaits or has finished its physical cleanup. -/
def ReplicaRow.Ended (row : ReplicaRow) : Prop :=
  row.state = .deleting ∨ row.state = .gone

/-- The two rows are of the same registration; only counters and health may
differ. -/
structure SameNode (old new : NodeRow) : Prop where
  inst : new.inst = old.inst
  volume : new.volume = old.volume
  heartbeat : new.heartbeat = old.heartbeat
  capacity : new.capacity = old.capacity

/-- The transactions whose effect is watched: a claim with the row it leaves,
the early exit of a repair, the review of a file, the registration of a node,
the publication of copies, the verdict on a recovered copy, the preparation of
a chunk, the publication of an upload, and the report of a bad copy. -/
inductive Focus where
  | none
  | claim (task : TaskKey) (row : TaskRow)
  | exit (task : TaskKey)
  | review (file : Ident)
  | register (nid : NodeId)
  | settle (cid : Ident) (nodes : List NodeId)
  | verdict (cid : Ident) (nid : NodeId) (valid : Bool)
  | prepare (cid : Ident) (sha : Sha)
  | publish (upload : Ident)
  | report (cid : Ident)

/-- The transaction publishes copies of the chunk, also on this node. -/
def Focus.Settles (focus : Focus) (cid : Ident) (nid : NodeId) : Prop :=
  ∃ nodes, focus = .settle cid nodes ∧ nid ∈ nodes

inductive RowMove (focus : Focus) (db db' : Database) (cid : Ident) (nid : NodeId) :
    Option ReplicaRow → Option ReplicaRow → Prop where
  | keep (old) : RowMove focus db db' cid nid old old
  | reserve (old) (volume : Ident)
      (free : ∀ row, old = some row → row.state = .gone)
      (mounted : ∃ node, db'.nodes.get? nid = some node ∧ node.volume = volume)
      (alone : db'.phase cid = some .published →
        (∀ other row, db.replicas.get? (cid, other) = some row → row.state ≠ .reserved) ∧
        (∀ other, other ≠ nid →
          db'.replicas.get? (cid, other) = db.replicas.get? (cid, other)) ∧
        db'.Outstanding ⟨.repair, cid, none⟩)
      (phases : db'.phase cid = some .published ∨
        (db'.phase cid = some .staging ∧ db.phase cid = none)) :
      RowMove focus db db' cid nid old (some ⟨volume, .reserved, .reserved⟩)
  | settle (row) (owner : focus.Settles cid nid) (reserved : row.state = .reserved)
      (charged : row.charged = .reserved) :
      RowMove focus db db' cid nid (some row) (some { row with state := .valid, charged := .used })
  | mark (row) (valid : row.state = .valid) :
      RowMove focus db db' cid nid (some row) (some { row with state := .bad })
  | unverify (row) (owner : focus = .register nid)
      (read : row.state = .valid ∨ row.state = .bad) :
      RowMove focus db db' cid nid (some row) (some { row with state := .unverified })
  | remount (row) (volume : Ident) (owner : focus = .register nid)
      (reserved : row.state = .reserved)
      (mounted : ∃ node, db'.nodes.get? nid = some node ∧ node.volume = volume) :
      RowMove focus db db' cid nid (some row) (some { row with volume })
  | verdict (row) (volume : Ident) (state : ReplicaState) (charged : Charge) (valid : Bool)
      (owner : focus = .verdict cid nid valid) (unverified : row.state = .unverified)
      (judged : (valid = true ∧ state = .valid ∧ charged = row.charged) ∨
        (state = .bad ∧ (charged = row.charged ∨ charged = .none)))
      (mounted : ∃ node, db'.nodes.get? nid = some node ∧ node.volume = volume) :
      RowMove focus db db' cid nid (some row) (some ⟨volume, state, charged⟩)
  | refund (row) (settled : row.state = .reserved → db'.phase cid = some .published) :
      RowMove focus db db' cid nid (some row) (some { row with charged := .none })
  | retire (row) (deleted : db'.phase cid = some .deleted)
      (cleanup : db'.Outstanding ⟨.delete, cid, some nid⟩) :
      RowMove focus db db' cid nid (some row) (some ⟨row.volume,
        if row.state = .gone then .gone else .deleting,
        if row.charged = .reserved then .none else row.charged⟩)
  | delete (row) (unprotected : ¬Database.Protected row)
      (cleanup : db'.Outstanding ⟨.delete, cid, some nid⟩) :
      RowMove focus db db' cid nid (some row) (some { row with state := .deleting })
  | vanish (row) (deleting : row.state = .deleting) :
      RowMove focus db db' cid nid (some row) (some { row with state := .gone, charged := .none })
  | discard (row) (owner : focus.Settles cid nid) (reserved : row.state = .reserved) :
      RowMove focus db db' cid nid (some row) (some { row with state := .bad, charged := .none })

inductive TaskMove (focus : Focus) (db' : Database) (key : TaskKey) :
    Option TaskRow → Option TaskRow → Prop where
  | keep (old) : TaskMove focus db' key old old
  | enqueue (old) (row : TaskRow) (free : ∀ task, old = some task → task.state = .done)
      (pending : row.state = .pending)
      (known : db'.phase key.chunk ≠ none ∨ focus = .review key.chunk)
      (published : key.kind = .repair →
        key.node = none ∧
          (db'.phase key.chunk = some .published ∨ focus = .report key.chunk)) :
      TaskMove focus db' key old (some row)
  | claim (task) (row : TaskRow) (owner : focus = .claim key row) (due : task.state ≠ .done)
      (running : row.state = .running) : TaskMove focus db' key (some task) (some row)
  | fail (task) (row : TaskRow) (running : task.state = .running) (pending : row.state = .pending)
      (token : row.token = task.token) : TaskMove focus db' key (some task) (some row)
  | finish (task) (row : TaskRow) (done : row.state = .done)
      (cleaned : ∀ nid, key.kind = .delete → key.node = some nid →
        ∀ replica, db'.replicas.get? (key.chunk, nid) = some replica →
          replica.state ≠ .deleting)
      (repaired : key.kind = .repair → focus = .exit key ∨
        db'.phase key.chunk = some .deleted ∨
        ∀ nid replica, db'.replicas.get? (key.chunk, nid) = some replica →
          replica.state ≠ .reserved) :
      TaskMove focus db' key (some task) (some row)

/-- The rows of a new upload and its object; only the identifiers `drawn` may
name its chunks. -/
structure Creation (drawn : List Ident) (db db' : Database) (oid upload : Ident)
    (object : ObjectRow) (row : UploadRow) (ids : Nat → Ident) : Prop where
  freshObject : db.objects.get? oid = none
  freshUpload : db.uploads.get? upload = none
  objects : ∀ other, db'.objects.get? other =
    if other = oid then some object else db.objects.get? other
  uploads : ∀ other, db'.uploads.get? other =
    if other = upload then some row else db.uploads.get? other
  staging : object.state = .staging
  opened : row.state = .uploading
  owned : row.object = oid
  sized : 0 < object.chunkSize
  copied : 0 < object.replicas
  injective : ∀ i j, i < chunkCount object.size object.chunkSize →
    j < chunkCount object.size object.chunkSize → ids i = ids j → i = j
  freshChunk : ∀ seq < chunkCount object.size object.chunkSize,
    db.chunks.get? (ids seq) = none ∧ ids seq ∈ drawn
  created : ∀ seq < chunkCount object.size object.chunkSize,
    db'.chunks.get? (ids seq) = some ⟨upload, seq,
      min object.chunkSize (object.size - seq * object.chunkSize), none, .pending⟩ ∧
    (db'.replicasOf (ids seq)).length = object.replicas
  others : ∀ other, (∀ seq < chunkCount object.size object.chunkSize, other ≠ ids seq) →
    db'.chunks.get? other = db.chunks.get? other

/-- The moves of the object, upload and chunk tables. -/
inductive LifeMove (focus : Focus) (drawn : List Ident) (db db' : Database) : Prop where
  | same (objects : db'.objects = db.objects) (uploads : db'.uploads = db.uploads)
      (chunks : db'.chunks = db.chunks)
  | fixSha (cid : Ident) (chunk : ChunkRow) (sha : Sha) (owner : focus = .prepare cid sha)
      (stored : db.chunks.get? cid = some chunk) (staging : db.phase cid = some .staging)
      (compatible : chunk.sha = none ∨ chunk.sha = some sha)
      (objects : db'.objects = db.objects) (uploads : db'.uploads = db.uploads)
      (chunks : db'.chunks = db.chunks.modify cid fun row => { row with sha := some sha })
  | confirm (cid : Ident) (chunk : ChunkRow)
      (stored : db.chunks.get? cid = some chunk) (staging : db.phase cid = some .staging)
      (fixed : chunk.sha ≠ none)
      (objects : db'.objects = db.objects) (uploads : db'.uploads = db.uploads)
      (chunks : db'.chunks = db.chunks.modify cid fun row => { row with state := .confirmed })
  | publish (upload : Ident) (row : UploadRow) (object : ObjectRow)
      (owner : focus = .publish upload)
      (stored : db.uploads.get? upload = some row)
      (located : db.objects.get? row.object = some object)
      (opened : row.state = .uploading)
      (ready : ∀ cid chunk, db.chunks.get? cid = some chunk → chunk.upload = upload →
        chunk.state = .confirmed ∧ object.replicas ≤
          ((db.replicasOf cid).filter fun entry => entry.2.state = .valid).length)
      (objects : db'.objects = db.objects.modify row.object fun o =>
        if o.state = .staging then { o with state := .published } else o)
      (uploads : db'.uploads = db.uploads.modify upload fun u =>
        if u.state = .uploading then { u with state := .completed } else u)
      (chunks : db'.chunks = db.chunks) (replicas : db'.replicas = db.replicas)
  | retire (upload : Ident) (row : UploadRow) (state : UploadState)
      (stored : db.uploads.get? upload = some row)
      (terminal : state = .cancelled ∨ state = .expired)
      (objects : db'.objects = db.objects.modify row.object fun o => { o with state := .deleted })
      (uploads : db'.uploads = db.uploads.modify upload fun u => { u with state })
      (chunks : db'.chunks = db.chunks)
  | create (oid upload : Ident) (object : ObjectRow) (row : UploadRow) (ids : Nat → Ident)
      (creation : Creation drawn db db' oid upload object row ids)

/-- The moves of the node and instance tables. -/
inductive NodesMove (focus : Focus) (db db' : Database) : Prop where
  | same
      (nodes : ∀ nid, Option.Rel SameNode (db.nodes.get? nid) (db'.nodes.get? nid))
      (instances : db'.instances = db.instances)
  | register (nid : NodeId) (node : NodeRow) (owner : focus = .register nid)
      (registered : db'.nodes.get? nid = some node)
      (others : ∀ other, other ≠ nid → db'.nodes.get? other = db.nodes.get? other)
      (fresh : ∀ old, db.nodes.get? nid = some old → old.inst ≠ node.inst →
        (nid, node.inst) ∉ db.instances)
      (kept : db.instances ⊆ db'.instances)
      (retired : ∀ old, db.nodes.get? nid = some old → old.inst ≠ node.inst →
        (nid, old.inst) ∈ db'.instances)
      (only : ∀ entry ∈ db'.instances, entry ∈ db.instances ∨
        ∃ old, db.nodes.get? nid = some old ∧ old.inst ≠ node.inst ∧ entry = (nid, old.inst))
      (mounted : ∀ cid row, db'.replicas.get? (cid, nid) = some row →
        row.state = .reserved ∨ row.state = .valid → row.volume = node.volume)
      (elsewhere : ∀ cid other, other ≠ nid →
        db'.replicas.get? (cid, other) = db.replicas.get? (cid, other))

structure Moves (focus : Focus) (drawn : List Ident) (db db' : Database) : Prop where
  rows : ∀ cid nid, RowMove focus db db' cid nid (db.replicas.get? (cid, nid))
    (db'.replicas.get? (cid, nid))
  tasks : ∀ key, TaskMove focus db' key (db.tasks.get? key) (db'.tasks.get? key)
  life : LifeMove focus drawn db db'
  nodes : NodesMove focus db db'
  balance : db.Accounted → db'.Accounted
  budget : ∀ nid old new, db.nodes.get? nid = some old → db'.nodes.get? nid = some new →
    new.reserved + new.usedBytes ≤ old.reserved + old.usedBytes ∨
      new.reserved + new.usedBytes ≤ new.capacity
  newlyDeleted : ∀ cid, db'.phase cid = some .deleted → db.phase cid ≠ some .deleted →
    (∀ nid row, db'.replicas.get? (cid, nid) = some row → row.Ended) ∧
    ∀ key task, db'.tasks.get? key = some task → key.kind = .repair → key.chunk = cid →
      task.state = .done

end FileServer.Metadata
