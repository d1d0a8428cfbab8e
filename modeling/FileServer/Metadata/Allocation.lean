import FileServer.Metadata.Schema

/-!
# Placement, capacity and retirement

The helpers of `Metadata` that run inside a transaction.  Each takes the
tables and the time read in that transaction and returns the tables it leaves;
a raised error discards them with the transaction.
-/

namespace FileServer.Metadata

open FileServer.Relational FileServer.Transition

structure Claims where
  upload : Ident
  chunk : Ident
  length : Nat
  sha : Sha
  node : NodeId
  volume : Ident
  inst : Ident
  expires : Time
  deriving DecidableEq

/-- One assigned location: the node, its address and the signed ticket. -/
structure Position where
  node : NodeId
  address : String
  authorization : Claims
  deriving DecidableEq

/-- A row of `healthy`. -/
structure Source where
  node : NodeId
  address : String
  volume : Ident
  inst : Ident
  deriving DecidableEq

namespace NodeRow

/-- `state = 'healthy'` with a heartbeat younger than the suspicion time. -/
def Alive (c : Config) (now : Time) (node : NodeRow) : Prop :=
  node.state = .healthy ∧ now - node.heartbeat < c.suspect

instance (c : Config) (now : Time) (node : NodeRow) : Decidable (node.Alive c now) :=
  inferInstanceAs (Decidable (_ ∧ _))

/-- The admission test of `reserve`. -/
def Admits (c : Config) (now : Time) (length : Nat) (node : NodeRow) : Prop :=
  node.Alive c now ∧
    length ≤ min (node.capacity - node.usedBytes - node.reserved) (node.freeBytes - node.reserved)

instance (c : Config) (now : Time) (length : Nat) (node : NodeRow) :
    Decidable (node.Admits c now length) :=
  inferInstanceAs (Decidable (_ ∧ _))

end NodeRow

namespace Database

/-- One round of `reserve`: the replica row and the node's counter. -/
def reserveOn (db : Database) (cid : Ident) (nid : NodeId) (volume : Ident) (length : Nat) :
    Database :=
  { db with
    replicas := db.replicas.upsert (cid, nid) ⟨volume, .reserved, .reserved⟩
      fun _ => ⟨volume, .reserved, .reserved⟩
    nodes := db.nodes.modify nid fun node => { node with reserved := node.reserved + length } }

def reserveLoop (c : Config) (now : Time) (cid : Ident) (length count : Nat)
    (excluded : List NodeId) :
    List (NodeId × NodeRow) → List NodeId → Database → List NodeId × Database
  | [], chosen, db => (chosen, db)
  | (nid, node) :: rest, chosen, db =>
      if nid ∈ excluded ∨ ¬node.Alive c now then
        reserveLoop c now cid length count excluded rest chosen db
      else if min (node.capacity - node.usedBytes - node.reserved)
          (node.freeBytes - node.reserved) < length then
        reserveLoop c now cid length count excluded rest chosen db
      else
        let db := db.reserveOn cid nid node.volume length
        let chosen := chosen ++ [nid]
        if chosen.length = count then (chosen, db)
        else reserveLoop c now cid length count excluded rest chosen db

/-- `SELECT ... FROM ds_nodes ORDER BY reserved+used_bytes,node_id`. -/
def nodesByLoad (db : Database) : List (NodeId × NodeRow) :=
  db.nodes.rows.insertionSort fun first second =>
    first.2.reserved + first.2.usedBytes < second.2.reserved + second.2.usedBytes ∨
      (first.2.reserved + first.2.usedBytes = second.2.reserved + second.2.usedBytes ∧
        first.1 ≤ second.1)

def reserve (c : Config) (now : Time) (db : Database) (cid : Ident) (length count : Nat)
    (excluded : List NodeId) : Attempt (List NodeId × Database) := do
  let (chosen, db) := reserveLoop c now cid length count excluded db.nodesByLoad [] db
  require (chosen.length = count)
    ⟨.capacity, "not enough healthy distinct nodes with free capacity"⟩
  return (chosen, db)

/-- The locations of a chunk that may be written, all of them available. -/
def positions (c : Config) (now : Time) (db : Database) (cid upload : Ident) (length : Nat)
    (sha : Sha) : Attempt (List Position) :=
  ((db.copies cid).filter fun entry =>
    entry.2.1.volume = entry.2.2.volume ∧
      (entry.2.1.state = .reserved ∨ entry.2.1.state = .valid)).mapM fun entry => do
    require (entry.2.2.Alive c now)
      ⟨.unavailable, "assigned node unavailable; retry after recovery"⟩
    pure ⟨entry.1, entry.2.2.address,
      ⟨upload, cid, length, sha, entry.1, entry.2.2.volume, entry.2.2.inst, now + c.authTtl⟩⟩

/-- The valid copies of a chunk on live nodes under their current volumes. -/
def healthy (c : Config) (now : Time) (db : Database) (cid : Ident) : List Source :=
  ((db.copies cid).filter fun entry =>
    entry.2.1.state = .valid ∧ entry.2.1.volume = entry.2.2.volume ∧
      entry.2.2.Alive c now).map fun entry =>
    ⟨entry.1, entry.2.2.address, entry.2.2.volume, entry.2.2.inst⟩

/-- Add a task; a finished one is revived and an outstanding one is kept. -/
def enqueue (now : Time) (db : Database) (kind : TaskKind) (cid : Ident)
    (nid : Option NodeId) (delay : Nat) : Database :=
  let lease := if delay = 0 then 0 else now + delay
  { db with
    tasks := db.tasks.upsert ⟨kind, cid, nid⟩ ⟨.pending, lease, none, 0, ""⟩ fun task =>
      if task.state = .done then { task with lease, state := .pending } else task }

/-- Give back whatever the replica row is charged for. -/
def uncharge (db : Database) (cid : Ident) (nid : NodeId) (length : Nat) : Database :=
  match db.replicas.get? (cid, nid) with
  | none => db
  | some replica =>
      match replica.charged with
      | .reserved =>
          (db.modifyNode nid fun node => { node with reserved := node.reserved - length})
            |>.modifyReplica cid nid fun row => { row with charged := .none }
      | .used =>
          (db.modifyNode nid fun node => { node with usedBytes := node.usedBytes - length})
            |>.modifyReplica cid nid fun row => { row with charged := .none }
      | .none => db

/-- Turn a reserved replica into a valid one and its reservation into use. -/
def settle (db : Database) (cid : Ident) (nid : NodeId) (length : Nat) : Database :=
  (db.modifyReplica cid nid fun row => { row with state := .valid, charged := .used })
    |>.modifyNode nid fun node =>
      { node with reserved := node.reserved - length, usedBytes := node.usedBytes + length }

def retireReplica (c : Config) (now : Time) (db : Database)
    (entry : Ident × NodeId × Charge × Nat) : Database :=
  let (cid, nid, charge, length) := entry
  let db := if charge = .reserved then db.uncharge cid nid length else db
  let db := db.modifyReplica cid nid fun row =>
    if row.state ≠ .gone then { row with state := .deleting } else row
  db.enqueue now .delete cid (some nid) (c.authTtl + 30)

/-- `ds_replicas r JOIN ds_chunks c ... WHERE c.upload_id=?`. -/
def uploadReplicas (db : Database) (upload : Ident) : List (Ident × NodeId × Charge × Nat) :=
  db.replicas.rows.filterMap fun entry =>
    (db.chunks.get? entry.1.1).bind fun chunk =>
      if chunk.upload = upload then
        some (entry.1.1, entry.1.2, entry.2.charged, chunk.length)
      else none

def Concerns (db : Database) (upload : Ident) (task : TaskKey) : Prop :=
  ∃ chunk ∈ db.chunks.get? task.chunk, chunk.upload = upload

instance (db : Database) (upload : Ident) (task : TaskKey) : Decidable (db.Concerns upload task) :=
  match located : db.chunks.get? task.chunk with
  | none => isFalse (by simp [Concerns, located])
  | some chunk => decidable_of_iff (chunk.upload = upload) (by simp [Concerns, located])

/-- End an upload: close the upload and its object, give reservations back,
schedule the cleanup of every replica and fence outstanding repairs. -/
def retire (c : Config) (now : Time) (db : Database) (upload : Ident) (state : UploadState) :
    Database :=
  let db := { db with uploads := db.uploads.modify upload fun row => { row with state } }
  let db := match db.uploads.get? upload with
    | some row =>
        { db with objects := db.objects.modify row.object fun o => { o with state := .deleted } }
    | none => db
  let db := (db.uploadReplicas upload).foldl (retireReplica c now) db
  { db with
    tasks := db.tasks.mapRows fun key task =>
      if key.kind = .repair ∧ db.Concerns upload key then
        { task with state := .done, token := none, lease := 0 }
      else task }

end Database

end FileServer.Metadata
