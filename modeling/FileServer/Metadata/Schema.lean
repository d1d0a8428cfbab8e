import FileServer.Relational.Table
import FileServer.Transition.Guarded
import Mathlib.Data.Finset.Basic
import Mathlib.Data.List.Sort

/-!
# The ds_* tables of the metadata service

Rows follow the migrations column by column.  A 32-digit hexadecimal
identifier is the number it spells, so that equality and order of identifiers
are those of the column; a node name is likewise only compared.  An empty
`sha256`, `token` or task `node_id` column is `none`.  `task_id` is the
position of a task row: rows are kept in insertion order, and a task is named
by its unique key.
-/

namespace FileServer.Metadata

open FileServer.Relational

abbrev Time := Int
abbrev Ident := Nat
abbrev NodeId := Nat
abbrev Sha := Nat

inductive Code where
  | auth | forbidden | invalid | notFound | deleted | expired | notPublished
  | capacity | unavailable | conflict | incomplete | injected | stale | duplicate
  | busy | dataUnavailable | corrupt | checksum | missing | truncated | internal
  deriving DecidableEq

structure Error where
  code : Code
  message : String
  deriving DecidableEq

abbrev Attempt := Except Error

/-- The parameters of one service process, with the bounds its constructor
checks. -/
structure Config where
  users : List (String × String)
  nodes : List (NodeId × String)
  chunk : Nat
  replicas : Nat
  ttl : Nat
  authTtl : Nat
  suspect : Nat
  dead : Nat
  repairWorkers : Nat
  bandwidth : Nat
  lease : Nat
  maxChunks : Nat
  confirmFault : Bool
  responseFault : Bool
  chunkBounds : 1 ≤ chunk ∧ chunk ≤ 4 * 1024 * 1024
  replicasBounds : 2 ≤ replicas ∧ replicas ≤ nodes.length
  ttlBounds : 5 ≤ ttl ∧ ttl ≤ 604800
  authTtlBounds : 2 ≤ authTtl ∧ authTtl ≤ 300
  suspectBounds : 2 ≤ suspect ∧ suspect ≤ 3600
  deadBounds : suspect + 1 ≤ dead ∧ dead ≤ 86400
  repairWorkersBounds : 1 ≤ repairWorkers ∧ repairWorkers ≤ 8
  bandwidthBounds : 1024 ≤ bandwidth ∧ bandwidth ≤ 1024 ^ 3
  leaseBounds : 40 + chunk * repairWorkers / bandwidth ≤ lease ∧ lease ≤ 86400
  maxChunksBounds : 1 ≤ maxChunks ∧ maxChunks ≤ 8192

inductive Health where
  | healthy | suspect | unavailable
  deriving DecidableEq

/-- A row of `ds_nodes`; `inst` is its column `instance`. -/
structure NodeRow where
  address : String
  inst : Ident
  volume : Ident
  heartbeat : Time
  capacity : Int
  freeBytes : Int
  reserved : Int
  usedBytes : Int
  state : Health
  deriving DecidableEq

inductive ObjectState where
  | staging | published | deleted
  deriving DecidableEq

structure ObjectRow where
  owner : String
  name : String
  size : Nat
  chunkSize : Nat
  replicas : Nat
  state : ObjectState
  deriving DecidableEq

inductive UploadState where
  | uploading | completed | cancelled | expired
  deriving DecidableEq

structure UploadRow where
  object : Ident
  state : UploadState
  expires : Time
  deriving DecidableEq

inductive ChunkState where
  | pending | confirmed
  deriving DecidableEq

structure ChunkRow where
  upload : Ident
  seq : Nat
  length : Nat
  sha : Option Sha
  state : ChunkState
  deriving DecidableEq

inductive ReplicaState where
  | reserved | valid | unverified | bad | deleting | gone
  deriving DecidableEq

inductive Charge where
  | reserved | used | none
  deriving DecidableEq

structure ReplicaRow where
  volume : Ident
  state : ReplicaState
  charged : Charge
  deriving DecidableEq

inductive TaskKind where
  | delete | repair
  deriving DecidableEq

inductive TaskState where
  | pending | running | done
  deriving DecidableEq

/-- The unique key of `ds_tasks`. -/
structure TaskKey where
  kind : TaskKind
  chunk : Ident
  node : Option NodeId
  deriving DecidableEq

structure TaskRow where
  state : TaskState
  lease : Time
  token : Option Ident
  attempts : Nat
  reason : String
  deriving DecidableEq

@[ext]
structure Database where
  nodes : Table NodeId NodeRow
  objects : Table Ident ObjectRow
  uploads : Table Ident UploadRow
  chunks : Table Ident ChunkRow
  replicas : Table (Ident × NodeId) ReplicaRow
  tasks : Table TaskKey TaskRow
  instances : Finset (NodeId × Ident)

namespace Database

/-- The migrated schema before the first transaction. -/
def empty : Database :=
  ⟨.empty, .empty, .empty, .empty, .empty, .empty, ∅⟩

def modifyReplica (db : Database) (cid : Ident) (nid : NodeId)
    (f : ReplicaRow → ReplicaRow) : Database :=
  { db with replicas := db.replicas.modify (cid, nid) f }

def modifyNode (db : Database) (nid : NodeId) (f : NodeRow → NodeRow) : Database :=
  { db with nodes := db.nodes.modify nid f }

def modifyTask (db : Database) (task : TaskKey) (f : TaskRow → TaskRow) : Database :=
  { db with tasks := db.tasks.modify task f }

def replicasOf (db : Database) (cid : Ident) : List (NodeId × ReplicaRow) :=
  db.replicas.rows.filterMap fun entry =>
    if entry.1.1 = cid then some (entry.1.2, entry.2) else none

/-- `ds_replicas r JOIN ds_nodes n ... WHERE r.chunk_id=? ORDER BY n.node_id`. -/
def copies (db : Database) (cid : Ident) : List (NodeId × ReplicaRow × NodeRow) :=
  ((db.replicasOf cid).filterMap fun entry =>
    (db.nodes.get? entry.1).map fun node => (entry.1, entry.2, node)).insertionSort
      fun first second => first.1 ≤ second.1

/-- `ds_chunks c JOIN ds_uploads u JOIN ds_objects o WHERE c.chunk_id=?`. -/
def chunkObject (db : Database) (cid : Ident) :
    Option (ChunkRow × UploadRow × Ident × ObjectRow) :=
  (db.chunks.get? cid).bind fun chunk =>
    (db.uploads.get? chunk.upload).bind fun upload =>
      (db.objects.get? upload.object).map fun object => (chunk, upload, upload.object, object)

/-- `ds_chunks WHERE upload_id=? AND seq=?`, at most one row. -/
def chunkAt (db : Database) (upload : Ident) (seq : Int) : Option (Ident × ChunkRow) :=
  db.chunks.rows.find? fun entry => entry.2.upload = upload ∧ (entry.2.seq : Int) = seq

/-- `ds_chunks WHERE upload_id=? ORDER BY seq`. -/
def chunksOf (db : Database) (upload : Ident) : List (Ident × ChunkRow) :=
  (db.chunks.rows.filter fun entry => entry.2.upload = upload).insertionSort
    fun first second => first.2.seq ≤ second.2.seq

/-- `SELECT upload_id FROM ds_uploads WHERE object_id=?`, at most one row. -/
def uploadOf (db : Database) (object : Ident) : Option Ident :=
  (db.uploads.rows.find? fun entry => entry.2.object = object).map Prod.fst

section Queries

variable (db : Database)

theorem mem_replicasOf {cid : Ident} {nid : NodeId} {row : ReplicaRow} :
    (nid, row) ∈ db.replicasOf cid ↔ db.replicas.get? (cid, nid) = some row := by
  rw [← Table.mem_rows_iff]
  simp only [replicasOf, List.mem_filterMap]
  constructor
  · rintro ⟨⟨⟨chunk, node⟩, value⟩, membership, selected⟩
    split at selected
    · next same =>
        cases selected
        exact same ▸ membership
    · cases selected
  · intro membership
    exact ⟨_, membership, by simp⟩

theorem mem_copies {cid : Ident} {nid : NodeId} {row : ReplicaRow} {node : NodeRow} :
    (nid, row, node) ∈ db.copies cid ↔
      db.replicas.get? (cid, nid) = some row ∧ db.nodes.get? nid = some node := by
  simp only [copies, List.mem_insertionSort, List.mem_filterMap, Option.map_eq_some_iff]
  constructor
  · rintro ⟨⟨_, _⟩, membership, _, located, equality⟩
    cases equality
    exact ⟨db.mem_replicasOf.mp membership, located⟩
  · rintro ⟨stored, located⟩
    exact ⟨(nid, row), db.mem_replicasOf.mpr stored, node, located, rfl⟩

theorem replicasOf_nodup (cid : Ident) : ((db.replicasOf cid).map Prod.fst).Nodup := by
  have distinct := db.replicas.keysNodup
  unfold replicasOf
  generalize db.replicas.rows = rows at distinct
  induction rows with
  | nil => simp
  | cons entry rest inductionHypothesis =>
      rcases entry with ⟨⟨chunk, node⟩, row⟩
      simp only [List.map_cons, List.nodup_cons] at distinct
      by_cases same : chunk = cid
      · subst chunk
        simp only [List.filterMap_cons, if_true, List.map_cons, List.nodup_cons]
        refine ⟨?_, inductionHypothesis distinct.2⟩
        intro repeated
        obtain ⟨⟨_, other⟩, membership, rfl⟩ := List.mem_map.mp repeated
        obtain ⟨⟨⟨chunk, node⟩, value⟩, inRest, selected⟩ := List.mem_filterMap.mp membership
        split at selected
        · next equality =>
            cases selected
            exact distinct.1 (List.mem_map.mpr ⟨_, inRest, Prod.ext equality rfl⟩)
        · cases selected
      · simpa [same] using inductionHypothesis distinct.2

theorem copies_nodup (cid : Ident) : ((db.copies cid).map Prod.fst).Nodup := by
  have sorted : ((db.copies cid).map Prod.fst).Perm
      (((db.replicasOf cid).filterMap fun entry =>
        (db.nodes.get? entry.1).map fun node => (entry.1, entry.2, node)).map Prod.fst) :=
    (List.perm_insertionSort _ _).map _
  rw [sorted.nodup_iff]
  apply List.Nodup.sublist _ (db.replicasOf_nodup cid)
  generalize db.replicasOf cid = entries
  induction entries with
  | nil => simp
  | cons entry rest inductionHypothesis =>
      cases located : db.nodes.get? entry.1 with
      | none => simpa [located] using inductionHypothesis.cons entry.1
      | some node => simpa [located] using inductionHypothesis

theorem chunkObject_eq_some {cid : Ident} {chunk : ChunkRow} {upload : UploadRow}
    {oid : Ident} {object : ObjectRow} :
    db.chunkObject cid = some (chunk, upload, oid, object) ↔
      db.chunks.get? cid = some chunk ∧ db.uploads.get? chunk.upload = some upload ∧
        upload.object = oid ∧ db.objects.get? oid = some object := by
  simp only [chunkObject, Option.bind_eq_some_iff, Option.map_eq_some_iff, Prod.mk.injEq]
  constructor
  · rintro ⟨_, stored, _, owned, _, located, rfl, rfl, rfl, rfl⟩
    exact ⟨stored, owned, rfl, located⟩
  · rintro ⟨stored, owned, rfl, located⟩
    exact ⟨chunk, stored, upload, owned, object, located, rfl, rfl, rfl, rfl⟩

theorem chunkAt_eq_some {upload : Ident} {seq : Int} {cid : Ident} {chunk : ChunkRow}
    (selected : db.chunkAt upload seq = some (cid, chunk)) :
    db.chunks.get? cid = some chunk ∧ chunk.upload = upload ∧ chunk.seq = seq := by
  have membership := List.mem_of_find?_eq_some selected
  have matched := List.find?_some selected
  simp only [decide_eq_true_eq] at matched
  exact ⟨db.chunks.mem_rows_iff.mp membership, matched⟩

theorem mem_chunksOf {upload : Ident} {cid : Ident} {chunk : ChunkRow} :
    (cid, chunk) ∈ db.chunksOf upload ↔
      db.chunks.get? cid = some chunk ∧ chunk.upload = upload := by
  simp [chunksOf, List.mem_insertionSort, Table.mem_rows_iff]

theorem uploadOf_eq_some {oid upload : Ident} (selected : db.uploadOf oid = some upload) :
    ∃ row, db.uploads.get? upload = some row ∧ row.object = oid := by
  simp only [uploadOf, Option.map_eq_some_iff] at selected
  obtain ⟨⟨_, row⟩, first, rfl⟩ := selected
  have matched := List.find?_some first
  simp only [decide_eq_true_eq] at matched
  exact ⟨row, db.uploads.mem_rows_iff.mp (List.mem_of_find?_eq_some first), matched⟩

end Queries

end Database

end FileServer.Metadata
