import FileServer.Metadata.Allocation

/-!
# Foreground commands

The single-transaction commands of `dispatch`, and the two transactions of
`confirm` around its calls to the storage nodes.  `dispatch` has already
checked the service credential.
-/

namespace FileServer.Metadata

open FileServer.Relational FileServer.Transition

inductive Command where
  | init (size : Int) (name : String)
  | status (upload : Ident) (cursor : Int)
  | prepare (upload : Ident) (seq : Int) (sha : Option Sha)
  | complete (upload : Ident)
  | cancel (upload : Ident)
  | manifest (object : Ident)
  | locations (object : Ident) (seq : Int)
  | delete (object : Ident)
  | badReplica (object chunk : Ident) (node : NodeId)

inductive Reply where
  | initialized (object upload : Ident) (chunkSize chunks : Nat)
  | status (object : Ident) (state : UploadState) (expires : Time) (confirmedBytes : Nat)
      (chunkSize size : Nat) (missing : List Nat) (nextCursor : Option Nat)
  | prepared (chunk : Ident) (length : Nat) (sha : Sha) (positions : List Position)
  | published (object : Ident)
  | upload (state : UploadState)
  | deleted
  | manifest (object : Ident) (name : String) (size chunkSize chunks : Nat)
  | located (chunk : Ident) (length : Nat) (sha : Option Sha) (positions : List (NodeId × String))
  | accepted
  deriving DecidableEq

def chunkCount (size chunkSize : Nat) : Nat := (size + chunkSize - 1) / chunkSize

def Command.drawn (c : Config) (ident : Nat → Ident) : Command → List Ident
  | .init size _ => (List.range (chunkCount size.toNat c.chunk + 2)).map ident
  | _ => []

namespace Database

def active (now : Time) (db : Database) (upload : Ident) (owner : Option String)
    (writing : Bool) : Attempt (UploadRow × ObjectRow) := do
  let row ← found (db.uploads.get? upload) ⟨.notFound, "upload not found"⟩
  let object ← found (db.objects.get? row.object) ⟨.notFound, "upload not found"⟩
  require (owner = none ∨ owner = some object.owner)
    ⟨.forbidden, "object belongs to another user"⟩
  require (writing = true → object.state ≠ .deleted) ⟨.deleted, "object deleted"⟩
  require (writing = true → row.state = .uploading ∧ now < row.expires)
    ⟨.expired, "upload not active"⟩
  return (row, object)

def object (db : Database) (oid : Ident) (owner : String) : Attempt ObjectRow := do
  let row ← found (db.objects.get? oid) ⟨.notFound, "object not found"⟩
  require (row.owner = owner) ⟨.forbidden, "object belongs to another user"⟩
  require (row.state ≠ .deleted) ⟨.deleted, "object deleted"⟩
  require (row.state = .published) ⟨.notPublished, "object not published"⟩
  return row

def initChunk (c : Config) (now : Time) (size : Nat) (upload : Ident) (ident : Nat → Ident)
    (db : Database) (seq : Nat) : Attempt Database := do
  let cid := ident (seq + 2)
  let length := min c.chunk (size - seq * c.chunk)
  let chunks ← found (db.chunks.insert? cid ⟨upload, seq, length, none, .pending⟩)
    ⟨.internal, "internal service error"⟩
  let (_, db) ← reserve c now { db with chunks } cid length c.replicas []
  return db

/-- `init`; `ident` supplies the identifiers drawn, in the order drawn. -/
def init (c : Config) (now : Time) (db : Database) (owner : String) (size : Int) (name : String)
    (ident : Nat → Ident) : Attempt (Reply × Database) := do
  require (0 ≤ size ∧ size ≤ c.chunk * c.maxChunks) ⟨.invalid, "invalid request"⟩
  require (0 < name.length ∧ name.length ≤ 255) ⟨.invalid, "invalid request"⟩
  let count := chunkCount size.toNat c.chunk
  let oid := ident 0
  let upload := ident 1
  let objects ← found
    (db.objects.insert? oid ⟨owner, name, size.toNat, c.chunk, c.replicas, .staging⟩)
    ⟨.internal, "internal service error"⟩
  let uploads ← found (db.uploads.insert? upload ⟨oid, .uploading, now + c.ttl⟩)
    ⟨.internal, "internal service error"⟩
  let db ← (List.range count).foldlM (initChunk c now size.toNat upload ident)
    { db with objects, uploads }
  return (.initialized oid upload c.chunk count, db)

def confirmedBytes (db : Database) (upload : Ident) : Nat :=
  (((db.chunksOf upload).filter fun entry => entry.2.state = .confirmed).map
    fun entry => entry.2.length).sum

def status (now : Time) (db : Database) (owner : String) (upload : Ident) (cursor : Int) :
    Attempt Reply := do
  let (row, object) ← active now db upload (some owner) false
  require (0 ≤ cursor) ⟨.invalid, "invalid request"⟩
  let missing := (((db.chunksOf upload).filter fun entry =>
    entry.2.state ≠ .confirmed ∧ cursor ≤ entry.2.seq).map fun entry => entry.2.seq).take 257
  return .status row.object row.state row.expires (db.confirmedBytes upload)
    object.chunkSize object.size (missing.take 256)
    (if 256 < missing.length then missing[255]?.map (· + 1) else none)

def prepare (c : Config) (now : Time) (db : Database) (owner : String) (upload : Ident)
    (seq : Int) (sha : Option Sha) : Attempt (Reply × Database) := do
  let (row, object) ← active now db upload (some owner) false
  require (row.state = .uploading ∧ now < row.expires) ⟨.expired, "upload not active"⟩
  require (0 ≤ seq) ⟨.invalid, "invalid request"⟩
  let sha ← found sha ⟨.invalid, "invalid request"⟩
  let (cid, chunk) ← found (db.chunkAt upload seq) ⟨.notFound, "chunk not found"⟩
  require (chunk.sha = none ∨ chunk.sha = some sha)
    ⟨.conflict, "checksum already fixed for this chunk"⟩
  let db := { db with chunks := db.chunks.modify cid fun row => { row with sha := some sha } }
  let located ← positions c now db cid upload chunk.length sha
  require (located.length = object.replicas) ⟨.unavailable, "replica locations unavailable"⟩
  return (.prepared cid chunk.length sha located, db)

/-- The loop of `complete` over the chunks in order. -/
def checkChunks (db : Database) (object : ObjectRow) :
    Nat → List (Ident × ChunkRow) → Attempt Unit
  | _, [] => return ()
  | index, (cid, chunk) :: rest => do
      require (chunk.seq = index ∧
          (chunk.length : Int) =
            min (object.chunkSize : Int) (object.size - index * object.chunkSize) ∧
          chunk.state = .confirmed)
        ⟨.incomplete, "missing confirmed chunk"⟩
      require (object.replicas ≤
          ((db.replicasOf cid).filter fun entry => entry.2.state = .valid).length)
        ⟨.incomplete, "replica confirmation missing"⟩
      checkChunks db object (index + 1) rest

/-- The two updates that publish an object. -/
def publish (db : Database) (upload oid : Ident) : Database :=
  { db with
    objects := db.objects.modify oid fun row =>
      if row.state = .staging then { row with state := .published } else row
    uploads := db.uploads.modify upload fun row =>
      if row.state = .uploading then { row with state := .completed } else row }

def complete (now : Time) (db : Database) (owner : String) (upload : Ident) :
    Attempt (Reply × Database) := do
  let (row, object) ← active now db upload (some owner) false
  if row.state = .completed ∧ object.state = .published then
    return (.published row.object, db)
  else
    require (row.state = .uploading ∧ now < row.expires) ⟨.expired, "upload not active"⟩
    let chunks := db.chunksOf upload
    require (chunks.length = chunkCount object.size object.chunkSize)
      ⟨.incomplete, "chunk count mismatch"⟩
    checkChunks db object 0 chunks
    return (.published row.object, db.publish upload row.object)

def cancel (c : Config) (now : Time) (db : Database) (owner : String) (upload : Ident) :
    Attempt (Reply × Database) := do
  let (row, _) ← active now db upload (some owner) false
  if row.state = .cancelled ∨ row.state = .expired then
    return (.upload row.state, db)
  else
    require (row.state = .uploading ∧ now < row.expires) ⟨.expired, "upload not active"⟩
    return (.upload .cancelled, retire c now db upload .cancelled)

def delete (c : Config) (now : Time) (db : Database) (owner : String) (oid : Ident) :
    Attempt (Reply × Database) := do
  let row ← found (db.objects.get? oid) ⟨.notFound, "object not found"⟩
  require (row.owner = owner) ⟨.forbidden, "object belongs to another user"⟩
  if row.state = .deleted then
    return (.deleted, db)
  else
    let upload ← found (db.uploadOf oid) ⟨.internal, "internal service error"⟩
    return (.deleted, retire c now db upload .cancelled)

def manifest (db : Database) (owner : String) (oid : Ident) : Attempt Reply := do
  let row ← object db oid owner
  let _ ← found (db.uploadOf oid) ⟨.internal, "internal service error"⟩
  return .manifest oid row.name row.size row.chunkSize (chunkCount row.size row.chunkSize)

def locations (c : Config) (now : Time) (db : Database) (owner : String) (oid : Ident)
    (seq : Int) : Attempt Reply := do
  let _ ← object db oid owner
  let upload ← found (db.uploadOf oid) ⟨.internal, "internal service error"⟩
  require (0 ≤ seq) ⟨.invalid, "invalid request"⟩
  let (cid, chunk) ← found (db.chunkAt upload seq) ⟨.notFound, "chunk absent"⟩
  return .located cid chunk.length chunk.sha
    ((healthy c now db cid).map fun source => (source.node, source.address))

def badReplica (now : Time) (db : Database) (owner : String) (oid cid : Ident) (nid : NodeId) :
    Attempt (Reply × Database) := do
  let _ ← object db oid owner
  require (∃ chunk ∈ db.chunks.get? cid, ∃ upload ∈ db.uploads.get? chunk.upload,
      upload.object = oid) ⟨.invalid, "unrelated chunk"⟩
  let db := db.modifyReplica cid nid fun row =>
    if row.state = .valid then { row with state := .bad } else row
  return (.accepted, enqueue now db .repair cid none 0)

def dispatch (c : Config) (now : Time) (ident : Nat → Ident) (db : Database) (owner : String)
    (command : Command) : Attempt (Reply × Database) := do
  require ((c.users.lookup owner).isSome) ⟨.auth, "unknown owner"⟩
  match command with
  | .init size name => init c now db owner size name ident
  | .status upload cursor => return (← status now db owner upload cursor, db)
  | .prepare upload seq sha => prepare c now db owner upload seq sha
  | .complete upload => complete now db owner upload
  | .cancel upload => cancel c now db owner upload
  | .manifest oid => return (← manifest db owner oid, db)
  | .locations oid seq => return (← locations c now db owner oid seq, db)
  | .delete oid => delete c now db owner oid
  | .badReplica oid cid nid => badReplica now db owner oid cid nid

end Database

/-- A `confirm` between its two transactions. `left` are the locations whose
`stat` has not succeeded yet; the call to the first of them is out when
`asked`. -/
structure Confirming where
  upload : Ident
  owner : Option String
  chunk : Ident
  length : Nat
  sha : Sha
  positions : List Position
  left : List Position
  asked : Bool
  deriving DecidableEq

namespace Database

def confirmBegin (c : Config) (now : Time) (db : Database) (upload : Ident)
    (owner : Option String) (seq : Int) : Attempt Confirming := do
  let (_, object) ← active now db upload owner true
  let (cid, chunk) ← found (db.chunkAt upload seq) ⟨.notFound, "chunk absent"⟩
  let sha ← found chunk.sha ⟨.invalid, "prepare required"⟩
  let located ← positions c now db cid upload chunk.length sha
  require (located.length = object.replicas) ⟨.incomplete, "replicas missing"⟩
  return ⟨upload, owner, cid, chunk.length, sha, located, located, false⟩

/-- One location in the loop of the second transaction of `confirm`. -/
def confirmReplica (cid : Ident) (length : Nat) (db : Database) (position : Position) :
    Attempt Database := do
  let replica ← found (db.replicas.get? (cid, position.node))
    ⟨.internal, "internal service error"⟩
  return if replica.state = .reserved then db.settle cid position.node length else db

def confirmCommit (c : Config) (now : Time) (db : Database) (op : Confirming) :
    Attempt (Nat × Database) := do
  require (c.confirmFault = false) ⟨.injected, "metadata confirmation failure"⟩
  let _ ← active now db op.upload op.owner true
  let current ← positions c now db op.chunk op.upload op.length op.sha
  require (current ≠ [] ∧
      current.map (fun position => position.authorization.inst) =
        op.positions.map fun position => position.authorization.inst)
    ⟨.stale, "node instance changed"⟩
  let db ← op.positions.foldlM (confirmReplica op.chunk op.length) db
  let db := { db with
    chunks := db.chunks.modify op.chunk fun row => { row with state := .confirmed } }
  return (db.confirmedBytes op.upload, db)

end Database

end FileServer.Metadata
