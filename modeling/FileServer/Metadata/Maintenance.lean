import FileServer.Metadata.Allocation

/-!
# Heartbeats and reconciliation

`heartbeat`, the transaction of `maintain`, and the transactions of
`reconcile`, which validates recovered nodes and removes surplus files.
-/

namespace FileServer.Metadata

open FileServer.Relational FileServer.Transition

/-- A heartbeat whose time has been read and whose transaction is to run. -/
structure Beat where
  node : NodeId
  address : String
  inst : Ident
  volume : Ident
  capacity : Int
  free : Int
  time : Time
  deriving DecidableEq

/-- A node as `reconcile` read it. -/
structure NodeView where
  node : NodeId
  address : String
  volume : Ident
  inst : Ident
  deriving DecidableEq

/-- An unverified replica to be checked by `stat`. -/
structure Check where
  chunk : Ident
  length : Nat
  sha : Option Sha
  deriving DecidableEq

def heartbeat (c : Config) (now : Time) (nid : NodeId) (inst volume : Ident)
    (capacity free : Int) : Attempt Beat := do
  let address ← found (c.nodes.lookup nid) ⟨.invalid, "unconfigured node"⟩
  require (0 ≤ free ∧ free ≤ capacity ∧ capacity ≤ 2 ^ 60) ⟨.invalid, "invalid request"⟩
  return ⟨nid, address, inst, volume, capacity, free, now⟩

namespace Database

/-- The transaction of `heartbeat`. -/
def register (c : Config) (db : Database) (beat : Beat) : Attempt Database := do
  let old := db.nodes.get? beat.node
  require (∀ node ∈ old, node.inst ≠ beat.inst → (beat.node, beat.inst) ∉ db.instances)
    ⟨.stale, "retired instance"⟩
  require (∀ node ∈ old, node.inst ≠ beat.inst → (c.dead : Int) ≤ beat.time - node.heartbeat)
    ⟨.duplicate, "node already has live instance"⟩
  let instances := match old with
    | some node =>
        if node.inst ≠ beat.inst then insert (beat.node, node.inst) db.instances
        else db.instances
    | none => db.instances
  let changed : Bool := match old with
    | some node => node.inst ≠ beat.inst ∨ node.volume ≠ beat.volume
    | none => false
  let nodes := db.nodes.upsert beat.node
    ⟨beat.address, beat.inst, beat.volume, beat.time, beat.capacity, beat.free, 0, 0, .healthy⟩
    fun node => { node with
      address := beat.address, inst := beat.inst, volume := beat.volume, heartbeat := beat.time
      capacity := beat.capacity, freeBytes := beat.free, state := .healthy }
  let replicas := if changed then
      db.replicas.mapRows fun key row =>
        if key.2 = beat.node then
          if row.state = .valid ∨ row.state = .bad then { row with state := .unverified }
          else if row.state = .reserved then { row with volume := beat.volume }
          else row
        else row
    else db.replicas
  return { db with nodes, replicas, instances }

/-- `UPDATE ds_nodes SET state=CASE ...`. -/
def refreshHealth (c : Config) (now : Time) (db : Database) : Database :=
  { db with
    nodes := db.nodes.mapRows fun _ node =>
      { node with
        state :=
          if node.heartbeat < now - c.dead then .unavailable
          else if node.heartbeat < now - c.suspect then .suspect
          else .healthy } }

def expiredUploads (now : Time) (db : Database) : List Ident :=
  ((db.uploads.rows.filter fun entry =>
    entry.2.state = .uploading ∧ entry.2.expires < now).map Prod.fst).take 32

def publishedChunks (db : Database) : List (Ident × Nat) :=
  (db.chunks.rows.filterMap fun entry =>
    (db.chunkObject entry.1).bind fun known =>
      if known.2.2.2.state = .published then some (entry.1, known.2.2.2.replicas)
      else none).insertionSort fun first second => first.1 ≤ second.1

def maintain (c : Config) (now : Time) (db : Database) : Database :=
  let db := db.refreshHealth c now
  let db := (db.expiredUploads now).foldl (fun db upload => retire c now db upload .expired) db
  db.publishedChunks.foldl (fun db entry =>
    if (healthy c now db entry.1).length < entry.2 then
      enqueue now db .repair entry.1 none 0
    else db) db

/-- The nodes `reconcile` visits. -/
def liveNodes (c : Config) (now : Time) (db : Database) : List NodeView :=
  (db.nodes.rows.filter fun entry => entry.2.Alive c now).map fun entry =>
    ⟨entry.1, entry.2.address, entry.2.volume, entry.2.inst⟩

def unverifiedOn (db : Database) (nid : NodeId) : List Check :=
  (db.replicas.rows.filterMap fun entry =>
    if entry.1.2 = nid ∧ entry.2.state = .unverified then
      (db.chunks.get? entry.1.1).map fun chunk => ⟨entry.1.1, chunk.length, chunk.sha⟩
    else none).take 128

/-- The transaction of `reconcile` after one `stat`. -/
def reverify (db : Database) (view : NodeView) (check : Check) (valid : Bool) :
    Attempt Database := do
  let replica ← found (db.replicas.get? (check.chunk, view.node))
    ⟨.internal, "internal service error"⟩
  let current ← found (db.nodes.get? view.node) ⟨.internal, "internal service error"⟩
  if current.volume = view.volume ∧ current.inst = view.inst then
    let db := db.modifyReplica check.chunk view.node fun row =>
      if row.state = .unverified then
        { row with state := if valid then .valid else .bad, volume := view.volume }
      else row
    return if valid = false ∧ replica.volume ≠ view.volume then
        db.uncharge check.chunk view.node check.length
      else db
  else return db

/-- The transaction of `reconcile` for one file a node reports. -/
def reviewFile (c : Config) (now : Time) (db : Database) (view : NodeView) (cid : Ident) :
    Database :=
  match db.chunkObject cid with
  | none => enqueue now db .delete cid (some view.node) (c.authTtl + 30)
  | some (_, _, _, object) =>
      if object.state = .deleted then
        enqueue now db .delete cid (some view.node) (c.authTtl + 30)
      else if ∃ replica ∈ db.replicas.get? (cid, view.node),
          (replica.state = .reserved ∨ replica.state = .valid ∨ replica.state = .unverified) ∧
            replica.volume = view.volume then db
      else if object.state = .published ∧
          object.replicas ≤ (healthy c now db cid).length then
        enqueue now db .delete cid (some view.node) (c.authTtl + 30)
      else db

end Database

end FileServer.Metadata
