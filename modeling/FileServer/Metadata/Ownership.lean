import FileServer.Metadata.RetireMoves
import FileServer.Metadata.Selection
import FileServer.Metadata.CommandMoves

/-!
# Rows and their owners

Every row of an upload, a chunk, a replica or a task belongs to the owner of
one object.  A command changes no row of another owner, provided the rows its
key selects are the user's whenever the first of them is.
-/

namespace FileServer.Metadata

open FileServer.Relational FileServer.Transition

structure Keyed (db : Database) : Prop where
  uploadObject : ∀ upload row, db.uploads.get? upload = some row →
    ∃ object, db.objects.get? row.object = some object
  chunkUpload : ∀ cid chunk, db.chunks.get? cid = some chunk →
    ∃ row, db.uploads.get? chunk.upload = some row
  replicaChunk : ∀ cid nid row, db.replicas.get? (cid, nid) = some row →
    ∃ chunk, db.chunks.get? cid = some chunk

theorem Consistent.keyed {db : Database} (consistent : Consistent db) : Keyed db :=
  ⟨consistent.linked.uploadObject, consistent.linked.chunkUpload, consistent.replicaChunk⟩

namespace Database

variable (db : Database)

def objectOwner (oid : Ident) : Option String := (db.objects.get? oid).map ObjectRow.owner

def uploadOwner (upload : Ident) : Option String :=
  (db.uploads.get? upload).bind fun row => db.objectOwner row.object

def chunkOwner (cid : Ident) : Option String :=
  (db.chunks.get? cid).bind fun chunk => db.uploadOwner chunk.upload

variable {db}

theorem uploadOwner_of_stored {upload : Ident} {row : UploadRow}
    (stored : db.uploads.get? upload = some row) : db.uploadOwner upload = db.objectOwner row.object := by
  simp [uploadOwner, stored]

theorem chunkOwner_of_stored {cid : Ident} {chunk : ChunkRow}
    (stored : db.chunks.get? cid = some chunk) : db.chunkOwner cid = db.uploadOwner chunk.upload := by
  simp [chunkOwner, stored]

end Database

def Foreign (user : String) (owner : Option String) : Prop := ∃ other ∈ owner, other ≠ user

theorem not_foreign_self (user : String) : ¬Foreign user (some user) := by
  simp [Foreign]

/-- The rows of the objects of other owners are as they were. -/
structure OthersKept (user : String) (db db' : Database) : Prop where
  objects : ∀ oid, Foreign user (db.objectOwner oid) → db'.objects.get? oid = db.objects.get? oid
  uploads : ∀ upload, Foreign user (db.uploadOwner upload) →
    db'.uploads.get? upload = db.uploads.get? upload
  chunks : ∀ cid, Foreign user (db.chunkOwner cid) → db'.chunks.get? cid = db.chunks.get? cid
  replicas : ∀ cid nid, Foreign user (db.chunkOwner cid) →
    db'.replicas.get? (cid, nid) = db.replicas.get? (cid, nid)
  tasks : ∀ task, Foreign user (db.chunkOwner task.chunk) →
    db'.tasks.get? task = db.tasks.get? task

namespace OthersKept

open Database

variable {user : String} {db db' : Database}

theorem refl (user : String) (db : Database) : OthersKept user db db :=
  ⟨fun _ _ => rfl, fun _ _ => rfl, fun _ _ => rfl, fun _ _ _ => rfl, fun _ _ => rfl⟩

/-- Nodes belong to no owner. -/
theorem modifyNode (kept : OthersKept user db db') (nid : NodeId) (f : NodeRow → NodeRow) :
    OthersKept user db (db'.modifyNode nid f) :=
  ⟨kept.objects, kept.uploads, kept.chunks, kept.replicas, kept.tasks⟩

theorem modifyReplica (kept : OthersKept user db db') {cid : Ident}
    (own : ¬Foreign user (db.chunkOwner cid)) (nid : NodeId) (f : ReplicaRow → ReplicaRow) :
    OthersKept user db (db'.modifyReplica cid nid f) where
  objects := kept.objects
  uploads := kept.uploads
  chunks := kept.chunks
  replicas := by
    intro other node foreign
    have different : (other, node) ≠ (cid, nid) := by
      intro same
      exact own ((Prod.mk.inj same).1 ▸ foreign)
    exact (Table.get?_modify_of_ne _ _ different).trans (kept.replicas other node foreign)
  tasks := kept.tasks

theorem modifyChunk (kept : OthersKept user db db') {cid : Ident}
    (own : ¬Foreign user (db.chunkOwner cid)) (f : ChunkRow → ChunkRow) :
    OthersKept user db { db' with chunks := db'.chunks.modify cid f } where
  objects := kept.objects
  uploads := kept.uploads
  chunks := by
    intro other foreign
    have different : other ≠ cid := by
      rintro rfl
      exact own foreign
    exact (Table.get?_modify_of_ne _ _ different).trans (kept.chunks other foreign)
  replicas := kept.replicas
  tasks := kept.tasks

theorem enqueue (kept : OthersKept user db db') {cid : Ident}
    (own : ¬Foreign user (db.chunkOwner cid)) (now : Time) (kind : TaskKind) (nid : Option NodeId)
    (delay : Nat) : OthersKept user db (db'.enqueue now kind cid nid delay) where
  objects := kept.objects
  uploads := kept.uploads
  chunks := kept.chunks
  replicas := kept.replicas
  tasks := by
    intro task foreign
    have different : task ≠ ⟨kind, cid, nid⟩ := by
      rintro rfl
      exact own foreign
    rw [enqueue_eq]
    simp only [Table.get?_upsert, if_neg different]
    exact kept.tasks task foreign

theorem publishBy (kept : OthersKept user db db') {sel : Selector} {oid : Ident}
    (object : ¬Foreign user (db.objectOwner oid))
    (uploads : ∀ upload, sel upload → ¬Foreign user (db.uploadOwner upload)) :
    OthersKept user db (db'.publishBy sel oid) where
  objects := by
    intro other foreign
    have different : other ≠ oid := by
      rintro rfl
      exact object foreign
    exact (Table.get?_modify_of_ne _ _ different).trans (kept.objects other foreign)
  uploads := by
    intro upload foreign
    have unselected : ¬sel upload := fun selected => uploads upload selected foreign
    simp only [Database.publishBy, Table.get?_mapRows, unselected]
    simpa using kept.uploads upload foreign
  chunks := kept.chunks
  replicas := kept.replicas
  tasks := kept.tasks

theorem retire (c : Config) (now : Time) {upload : Ident} {row : UploadRow}
    (stored : db.uploads.get? upload = some row) (own : ¬Foreign user (db.uploadOwner upload))
    (state : UploadState) : OthersKept user db (Database.retire c now db upload state) := by
  obtain ⟨looped, retirement⟩ := retire_ok c now stored state
  have outside : ∀ cid, Foreign user (db.chunkOwner cid) →
      ¬∃ chunk ∈ db.chunks.get? cid, chunk.upload = upload := by
    rintro cid foreign ⟨chunk, located, rfl⟩
    exact own (chunkOwner_of_stored located ▸ foreign)
  refine ⟨?_, ?_, ?_, ?_, ?_⟩
  · intro oid foreign
    rw [retirement.objects]
    refine Table.get?_modify_of_ne _ _ ?_
    rintro rfl
    exact own (uploadOwner_of_stored stored ▸ foreign)
  · intro other foreign
    rw [retirement.uploads]
    refine Table.get?_modify_of_ne _ _ ?_
    rintro rfl
    exact own foreign
  · intro cid _
    rw [retirement.chunks]
  · intro cid nid foreign
    rw [retirement.get?_replicas]
    simp only [if_neg (outside cid foreign), Option.map_id']
  · intro task foreign
    rcases retirement.task with same | ⟨_, ⟨chunk, located, owned⟩, _⟩ | ⟨_, concerned, _⟩
    · exact same
    · exact absurd ⟨chunk, located, owned⟩ (outside _ foreign)
    · exact absurd concerned (outside _ foreign)

/-- A new object is nobody's until it is inserted, and its chunks are new. -/
theorem init (keyed : Keyed db) {c : Config} {now : Time} {owner name : String} {size : Int}
    {ident : Nat → Ident} {reply : Reply}
    (initialized : Database.init c now db owner size name ident = .ok (reply, db')) :
    OthersKept user db db' := by
  obtain ⟨opened, _, _, _, _, freshObject, freshUpload, objects, uploads, nodes, chunks, replicas,
    tasks, _, created, _⟩ := init_ok initialized
  have anchored : ∀ cid nid row, opened.replicas.get? (cid, nid) = some row →
      ∃ chunk, opened.chunks.get? cid = some chunk := by
    intro cid nid row stored
    rw [chunks]
    exact keyed.replicaChunk cid nid row (replicas ▸ stored)
  have creation := Created.loop anchored _ created
  have old : ∀ cid, Foreign user (db.chunkOwner cid) →
      ∀ seq < chunkCount size.toNat c.chunk, cid ≠ ident (seq + 2) := by
    rintro cid ⟨other, owned, _⟩ seq inRange rfl
    have fresh := creation.freshChunks seq inRange
    rw [chunks] at fresh
    simp [chunkOwner, fresh] at owned
  refine ⟨?_, ?_, ?_, ?_, ?_⟩
  · rintro oid ⟨other, owned, _⟩
    have different : oid ≠ ident 0 := by
      rintro rfl
      simp [objectOwner, freshObject] at owned
    rw [creation.objects, objects, if_neg different]
  · rintro upload ⟨other, owned, _⟩
    have different : upload ≠ ident 1 := by
      rintro rfl
      simp [uploadOwner, freshUpload] at owned
    rw [creation.uploads, uploads, if_neg different]
  · intro cid foreign
    rw [creation.others cid (old cid foreign), chunks]
  · intro cid nid foreign
    rcases creation.rows cid nid with same | ⟨_, ⟨seq, inRange, rfl⟩, _⟩
    · rw [same, replicas]
    · exact absurd rfl (old _ foreign seq inRange)
  · intro task _
    rw [creation.tasks, tasks]

end OthersKept

namespace Database

variable {e : Engine} {c : Config} {now : Time} {user : String} {key : Option Value}
  {db db' : Database}
  {sel : Selector}

theorem mem_uploadsBy {id : Ident} {row : UploadRow} {object : ObjectRow} :
    (id, row, object) ∈ db.uploadsBy e sel ↔ sel id = true ∧ db.uploads.get? id = some row ∧
      db.objects.get? row.object = some object := by
  simp only [uploadsBy, List.mem_filterMap, (e.order_perm _).mem_iff, List.mem_map,
    List.mem_filter, Option.bind_eq_some_iff, Option.map_eq_some_iff, Prod.exists,
    Prod.mk.injEq, Table.mem_rows_iff]
  constructor
  · rintro ⟨_, ⟨_, _, ⟨_, selected⟩, rfl⟩, row, stored, object, located, rfl, rfl, rfl⟩
    exact ⟨selected, stored, located⟩
  · rintro ⟨selected, stored, located⟩
    exact ⟨id, ⟨id, row, ⟨stored, selected⟩, rfl⟩, row, stored, object, located, rfl, rfl, rfl⟩

theorem mem_objectsBy {oid : Ident} {row : ObjectRow} :
    (oid, row) ∈ db.objectsBy e sel ↔ sel oid = true ∧ db.objects.get? oid = some row := by
  simp only [objectsBy, List.mem_filterMap, (e.order_perm _).mem_iff, List.mem_map,
    List.mem_filter, Option.map_eq_some_iff, Prod.exists, Prod.mk.injEq, Table.mem_rows_iff]
  constructor
  · rintro ⟨_, ⟨_, _, ⟨_, selected⟩, rfl⟩, row, stored, rfl, rfl⟩
    exact ⟨selected, stored⟩
  · rintro ⟨selected, stored⟩
    exact ⟨oid, ⟨oid, row, ⟨stored, selected⟩, rfl⟩, row, stored, rfl, rfl⟩

theorem mem_chunksAtBy {seq : Int} {cid : Ident} {chunk : ChunkRow} :
    (cid, chunk) ∈ db.chunksAtBy e sel seq ↔ db.chunks.get? cid = some chunk ∧
      sel chunk.upload = true ∧ (chunk.seq : Int) = seq := by
  simp only [chunksAtBy, List.mem_filterMap, (e.order_perm _).mem_iff, List.mem_map,
    List.mem_filter, Option.map_eq_some_iff, Prod.exists, Prod.mk.injEq, Table.mem_rows_iff,
    decide_eq_true_eq]
  constructor
  · rintro ⟨id, ⟨_, chunk, ⟨stored, selected⟩, rfl⟩, chunk', stored', rfl, rfl⟩
    obtain rfl := Option.some.inj (stored.symm.trans stored')
    exact ⟨stored, selected⟩
  · rintro ⟨stored, selected⟩
    exact ⟨cid, ⟨cid, chunk, ⟨stored, selected⟩, rfl⟩, chunk, stored, rfl, rfl⟩

theorem activeBy_ok {row : UploadRow} {object : ObjectRow} :
    activeBy e db sel user = .ok (row, object) ↔
      ∃ id, (db.uploadsBy e sel).head? = some (id, row, object) ∧ object.owner = user := by
  simp only [activeBy, bind_eq_ok, found_eq_ok, require_eq_ok, pure_eq_ok, Prod.exists,
    Prod.mk.injEq]
  constructor
  · rintro ⟨id, _, _, first, _, owned, rfl, rfl⟩
    exact ⟨id, first, owned⟩
  · rintro ⟨id, first, owned⟩
    exact ⟨id, _, _, first, ⟨⟩, owned, rfl, rfl⟩

theorem objectBy_ok {oid : Ident} {row : ObjectRow} :
    objectBy e db sel user = .ok (oid, row) ↔
      (db.objectsBy e sel).head? = some (oid, row) ∧ row.owner = user ∧ row.state = .published := by
  simp only [objectBy, bind_eq_ok, found_eq_ok, require_eq_ok, pure_eq_ok, Prod.exists,
    Prod.mk.injEq]
  constructor
  · rintro ⟨_, _, first, _, owned, _, _, _, state, rfl, rfl⟩
    exact ⟨first, owned, state⟩
  · rintro ⟨first, owned, state⟩
    exact ⟨oid, row, first, ⟨⟩, owned, ⟨⟩, by simp [state], ⟨⟩, state, rfl, rfl⟩

/-- The locations prepared are as many as the object asks for, and their tickets
name the upload by the key of the request. -/
theorem prepareBy_positions {upload seq sha : Option Value} {cid : Ident} {length : Nat}
    {checksum : Sha} {located : List Assigned}
    (prepared : prepareBy e c now db sel user upload seq sha =
      .ok (.prepared cid length checksum located, db')) :
    (∃ oid object, db.objects.get? oid = some object ∧ located.length = object.replicas) ∧
      ∀ position ∈ located, position.authorization.upload = upload := by
  simp only [prepareBy, bind_eq_ok, require_eq_ok, found_eq_ok, pure_eq_ok, Prod.mk.injEq,
    Prod.exists, Response.prepared.injEq] at prepared
  obtain ⟨row, object, opened, _, _, _, _, _, _, _, _, _, chunk, _, _, _, _, assigned, _, counted,
    ⟨_, _, _, rfl⟩, _⟩ := prepared
  obtain ⟨_, first, _⟩ := activeBy_ok.mp opened
  obtain ⟨_, _, located⟩ := mem_uploadsBy.mp (List.mem_of_mem_head? first)
  refine ⟨⟨_, object, located, counted⟩, fun position membership => ?_⟩
  obtain ⟨_, rfl⟩ := (mapM_guarded_eq_ok _ _ _ _).mp assigned
  obtain ⟨_, _, rfl⟩ := List.mem_map.mp membership
  rfl

def UploadsUnmixed (e : Engine) (user : String) (db : Database) (sel : Selector) : Prop :=
  ∀ first ∈ (db.uploadsBy e sel).head?, first.2.2.owner = user →
    ∀ entry ∈ db.uploadsBy e sel, entry.2.2.owner = user

def ObjectsUnmixed (e : Engine) (user : String) (db : Database) (sel : Selector) : Prop :=
  ∀ first ∈ (db.objectsBy e sel).head?, first.2.owner = user →
    ∀ entry ∈ db.objectsBy e sel, entry.2.owner = user

/-- What the key of the command selects is the user's if the first row is. -/
structure Unmixed (e : Engine) (user : String) (cmd : Cmd) (fields : Fields) (db : Database) :
    Prop where
  uploads : cmd.selectsUploads → ∀ sel, e.selector fields.uploadId = .ok sel →
    db.UploadsUnmixed e user sel
  objects : cmd.selectsObjects → ∀ sel, e.selector fields.objectId = .ok sel →
    db.ObjectsUnmixed e user sel

theorem selector_single {key : Option Value}
    (named : ∀ value ∈ key, value.int? = none ∧ (∀ b, value ≠ .bool b) ∧ ∀ q, value ≠ .float q)
    (selected : e.selector key = .ok sel) {first second : Ident} (chosen : sel first = true)
    (chosen' : sel second = true) : first = second := by
  unfold Engine.selector at selected
  split at selected
  all_goals simp_all [Value.int?]
  all_goals subst selected; simp_all

theorem unmixed_of_named {cmd : Cmd} {fields : Fields}
    (uploads : ∀ value ∈ fields.uploadId,
      value.int? = none ∧ (∀ b, value ≠ .bool b) ∧ ∀ q, value ≠ .float q)
    (objects : ∀ value ∈ fields.objectId,
      value.int? = none ∧ (∀ b, value ≠ .bool b) ∧ ∀ q, value ≠ .float q) :
    db.Unmixed e user cmd fields where
  uploads := by
    rintro - sel selected ⟨id, row, object⟩ first owner ⟨id', row', object'⟩ membership
    obtain ⟨chosen, stored, located⟩ := mem_uploadsBy.mp (List.mem_of_mem_head? first)
    obtain ⟨chosen', stored', located'⟩ := mem_uploadsBy.mp membership
    obtain rfl := selector_single uploads selected chosen chosen'
    obtain rfl := Option.some.inj (stored.symm.trans stored')
    obtain rfl := Option.some.inj (located.symm.trans located')
    exact owner
  objects := by
    rintro - sel selected ⟨oid, row⟩ first owner ⟨oid', row'⟩ membership
    obtain ⟨chosen, stored⟩ := mem_objectsBy.mp (List.mem_of_mem_head? first)
    obtain ⟨chosen', stored'⟩ := mem_objectsBy.mp membership
    obtain rfl := selector_single objects selected chosen chosen'
    obtain rfl := Option.some.inj (stored.symm.trans stored')
    exact owner

def UploadsOwned (user : String) (db : Database) (sel : Selector) : Prop :=
  ∀ upload row, sel upload = true → db.uploads.get? upload = some row →
    db.uploadOwner upload = some user

def ObjectsOwned (user : String) (db : Database) (sel : Selector) : Prop :=
  ∀ oid row, sel oid = true → db.objects.get? oid = some row → row.owner = user

theorem UploadsUnmixed.owned (keyed : Keyed db) (unmixed : db.UploadsUnmixed e user sel)
    {id : Ident} {row : UploadRow} {object : ObjectRow}
    (first : (db.uploadsBy e sel).head? = some (id, row, object)) (owner : object.owner = user) :
    db.UploadsOwned user sel := by
  intro upload row' selected stored
  obtain ⟨object', located⟩ := keyed.uploadObject upload row' stored
  have owned : object'.owner = user := unmixed _ first owner (upload, row', object')
    (mem_uploadsBy.mpr ⟨selected, stored, located⟩)
  simp [uploadOwner, stored, objectOwner, located, owned]

theorem ObjectsUnmixed.owned (unmixed : db.ObjectsUnmixed e user sel) {oid : Ident}
    {row : ObjectRow} (first : (db.objectsBy e sel).head? = some (oid, row))
    (owner : row.owner = user) : db.ObjectsOwned user sel :=
  fun other row' selected stored =>
    unmixed _ first owner (other, row') (mem_objectsBy.mpr ⟨selected, stored⟩)

theorem UploadsOwned.not_foreign (owned : db.UploadsOwned user sel) {upload : Ident}
    (selected : sel upload = true) : ¬Foreign user (db.uploadOwner upload) := by
  cases stored : db.uploads.get? upload with
  | none => simp [Foreign, uploadOwner, stored]
  | some row =>
      rw [owned upload row selected stored]
      exact not_foreign_self user

theorem UploadsOwned.chunk (owned : db.UploadsOwned user sel) {cid : Ident} {chunk : ChunkRow}
    (stored : db.chunks.get? cid = some chunk) (selected : sel chunk.upload = true) :
    ¬Foreign user (db.chunkOwner cid) := by
  rw [chunkOwner_of_stored stored]
  exact owned.not_foreign selected

/-- The key of a command selects a row of another owner. -/
def NamesForeign (e : Engine) (user : String) (cmd : Cmd) (fields : Fields) (db : Database) : Prop :=
  match cmd with
  | .status | .prepare | .complete | .cancel | .upload =>
      ∃ sel, e.selector fields.uploadId = .ok sel ∧
        ∃ entry ∈ db.uploadsBy e sel, entry.2.2.owner ≠ user
  | .manifest | .locations | .delete | .badReplica | .download =>
      ∃ sel, e.selector fields.objectId = .ok sel ∧
        ∃ entry ∈ db.objectsBy e sel, entry.2.owner ≠ user
  | _ => False

section Commands

variable (keyed : Keyed db)
include keyed

theorem prepareBy_kept (unmixed : db.UploadsUnmixed e user sel) {upload seq sha : Option Value}
    {response : Response}
    (prepared : prepareBy e c now db sel user upload seq sha = .ok (response, db')) :
    OthersKept user db db' := by
  have opened := prepared
  simp only [prepareBy, bind_eq_ok, Prod.exists] at opened
  obtain ⟨row, object, opened, _⟩ := opened
  obtain ⟨_, first, owner⟩ := activeBy_ok.mp opened
  have owned := unmixed.owned keyed first owner
  obtain ⟨_, _, cid, chunk, _, _, _, chosen, _, _, rfl⟩ := prepareBy_ok prepared
  obtain ⟨stored, selected, _⟩ := mem_chunksAtBy.mp (List.mem_of_mem_head? chosen)
  exact (OthersKept.refl user db).modifyChunk (owned.chunk stored selected) _

theorem completeBy_kept (unmixed : db.UploadsUnmixed e user sel) {reply : Reply}
    (completed : completeBy e now db sel user key = .ok (reply, db')) : OthersKept user db db' := by
  simp only [completeBy, bind_eq_ok, Prod.exists] at completed
  obtain ⟨row, object, opened, completed⟩ := completed
  obtain ⟨id, first, owner⟩ := activeBy_ok.mp opened
  have owned := unmixed.owned keyed first owner
  split at completed
  · simp only [pure_eq_ok, Prod.mk.injEq] at completed
    exact completed.2 ▸ .refl user db
  · simp only [bind_eq_ok, pure_eq_ok, Prod.mk.injEq] at completed
    obtain ⟨_, _, _, _, _, _, _, _, _, rfl⟩ := completed
    obtain ⟨_, _, located⟩ := mem_uploadsBy.mp (List.mem_of_mem_head? first)
    refine (OthersKept.refl user db).publishBy ?_ fun upload selected => owned.not_foreign selected
    rw [objectOwner, located, Option.map_some, owner]
    exact not_foreign_self user

theorem cancelBy_kept (unmixed : db.UploadsUnmixed e user sel) {reply : Reply}
    (cancelled : cancelBy e c now db sel user key = .ok (reply, db')) : OthersKept user db db' := by
  simp only [cancelBy, bind_eq_ok, Prod.exists] at cancelled
  obtain ⟨row, object, opened, cancelled⟩ := cancelled
  obtain ⟨id, first, owner⟩ := activeBy_ok.mp opened
  have owned := unmixed.owned keyed first owner
  split at cancelled
  · simp only [pure_eq_ok, Prod.mk.injEq] at cancelled
    exact cancelled.2 ▸ .refl user db
  · simp only [bind_eq_ok, pure_eq_ok, Prod.mk.injEq] at cancelled
    obtain ⟨_, _, retired, ended, _, rfl⟩ := cancelled
    simp only [retireBy, bind_eq_ok] at ended
    obtain ⟨_, _, ended⟩ := ended
    split at ended
    · exact pure_eq_ok.mp ended ▸ .refl user db
    · next upload only =>
        have listed : upload ∈ (db.uploads.rows.filter fun entry => sel entry.1).map Prod.fst := by
          rw [only]
          exact List.mem_singleton_self upload
        obtain ⟨⟨_, row'⟩, present, rfl⟩ := List.mem_map.mp listed
        obtain ⟨inRows, selected⟩ := List.mem_filter.mp present
        rw [← pure_eq_ok.mp ended]
        exact .retire c now (db.uploads.mem_rows_iff.mp inRows) (owned.not_foreign selected) _
    · cases ended

theorem deleteBy_kept (unmixed : db.ObjectsUnmixed e user sel) {reply : Reply}
    (deleted : deleteBy e c now db sel user = .ok (reply, db')) : OthersKept user db db' := by
  simp only [deleteBy, bind_eq_ok, found_eq_ok, require_eq_ok, Prod.exists] at deleted
  obtain ⟨oid, row, first, _, owner, deleted⟩ := deleted
  have owned := unmixed.owned first owner
  split at deleted
  · simp only [pure_eq_ok, Prod.mk.injEq] at deleted
    exact deleted.2 ▸ .refl user db
  · simp only [bind_eq_ok, found_eq_ok, pure_eq_ok, Prod.mk.injEq] at deleted
    obtain ⟨upload, chosen, _, rfl⟩ := deleted
    have listed := (e.order_perm _).mem_iff.mp (List.mem_of_mem_head? chosen)
    obtain ⟨⟨_, row'⟩, present, rfl⟩ := List.mem_map.mp listed
    obtain ⟨inRows, selected⟩ := List.mem_filter.mp present
    have stored := db.uploads.mem_rows_iff.mp inRows
    obtain ⟨object, located⟩ := keyed.uploadObject _ _ stored
    refine .retire c now stored ?_ _
    rw [uploadOwner_of_stored stored, objectOwner, located, Option.map_some,
      owned _ _ selected located]
    exact not_foreign_self user

theorem badReplicaBy_kept (unmixed : db.ObjectsUnmixed e user sel) {chunk : Option Ident}
    {node : Option NodeId} {reply : Reply}
    (marked : badReplicaBy e now db sel user chunk node = .ok (reply, db')) :
    OthersKept user db db' := by
  simp only [badReplicaBy, bind_eq_ok, found_eq_ok, require_eq_ok, pure_eq_ok, Prod.exists,
    Prod.mk.injEq] at marked
  obtain ⟨oid, row, accepted, cid, rfl, nid, rfl, _, related, _, rfl⟩ := marked
  obtain ⟨first, owner, _⟩ := objectBy_ok.mp accepted
  have owned := unmixed.owned first owner
  obtain ⟨chunk, stored, upload, belongs, selected⟩ := related
  have own : ¬Foreign user (db.chunkOwner cid) := by
    obtain ⟨object, located⟩ := keyed.uploadObject _ _ belongs
    rw [chunkOwner_of_stored stored, uploadOwner_of_stored belongs, objectOwner, located,
      Option.map_some, owned _ _ selected located]
    exact not_foreign_self user
  exact ((OthersKept.refl user db).modifyReplica own nid _).enqueue own _ _ _ _

omit keyed in
/-- A command whose key selects a row of another owner fails. -/
theorem dispatchBy_own_named {ident : Nat → Ident} {request : Internal} {response : Response}
    (unmixed : db.Unmixed e request.owner request.cmd request.fields)
    (dispatched : db.dispatchBy e c now ident request = .ok (response, db')) :
    ¬db.NamesForeign e request.owner request.cmd request.fields := by
  have uploads : request.cmd.selectsUploads → ∀ sel, e.selector request.fields.uploadId = .ok sel → ∀ opened,
      activeBy e db sel request.owner = .ok opened →
      ¬∃ sel', e.selector request.fields.uploadId = .ok sel' ∧
        ∃ entry ∈ db.uploadsBy e sel', entry.2.2.owner ≠ request.owner := by
    rintro names sel selected ⟨row, object⟩ opened ⟨sel', selected', entry, membership, different⟩
    obtain rfl := Except.ok.inj (selected.symm.trans selected')
    obtain ⟨_, first, owner⟩ := activeBy_ok.mp opened
    exact different (unmixed.uploads names sel selected _ first owner entry membership)
  have objects : request.cmd.selectsObjects → ∀ sel, e.selector request.fields.objectId = .ok sel → ∀ first,
      (db.objectsBy e sel).head? = some first → first.2.owner = request.owner →
      ¬∃ sel', e.selector request.fields.objectId = .ok sel' ∧
        ∃ entry ∈ db.objectsBy e sel', entry.2.owner ≠ request.owner := by
    rintro names sel selected first chosen owner ⟨sel', selected', entry, membership, different⟩
    obtain rfl := Except.ok.inj (selected.symm.trans selected')
    exact different (unmixed.objects names sel selected _ chosen owner entry membership)
  cases kind : request.cmd <;>
    simp only [dispatchBy, kind, bind_eq_ok, require_eq_ok, NamesForeign, not_false_eq_true]
      at dispatched ⊢
  case status =>
    simp only [statusBy, bind_eq_ok] at dispatched
    obtain ⟨_, _, sel, selected, _, ⟨opened, active, _⟩, _⟩ := dispatched
    exact uploads (kind ▸ rfl) sel selected opened active
  case prepare =>
    simp only [prepareBy, bind_eq_ok] at dispatched
    obtain ⟨_, _, sel, selected, opened, active, _⟩ := dispatched
    exact uploads (kind ▸ rfl) sel selected opened active
  case complete =>
    simp only [completeBy, bind_eq_ok] at dispatched
    obtain ⟨_, _, sel, selected, _, ⟨opened, active, _⟩, _⟩ := dispatched
    exact uploads (kind ▸ rfl) sel selected opened active
  case cancel =>
    simp only [cancelBy, bind_eq_ok] at dispatched
    obtain ⟨_, _, sel, selected, _, ⟨opened, active, _⟩, _⟩ := dispatched
    exact uploads (kind ▸ rfl) sel selected opened active
  case manifest =>
    simp only [manifestBy, bind_eq_ok] at dispatched
    obtain ⟨_, _, sel, selected, _, ⟨entry, accepted, _⟩, _⟩ := dispatched
    obtain ⟨first, owner, _⟩ := objectBy_ok.mp accepted
    exact objects (kind ▸ rfl) sel selected _ first owner
  case locations =>
    simp only [locationsBy, bind_eq_ok] at dispatched
    obtain ⟨_, _, sel, selected, _, ⟨entry, accepted, _⟩, _⟩ := dispatched
    obtain ⟨first, owner, _⟩ := objectBy_ok.mp accepted
    exact objects (kind ▸ rfl) sel selected _ first owner
  case delete =>
    simp only [deleteBy, bind_eq_ok, found_eq_ok, require_eq_ok] at dispatched
    obtain ⟨_, _, sel, selected, _, ⟨entry, first, _, owner, _⟩, _⟩ := dispatched
    exact objects (kind ▸ rfl) sel selected _ first owner
  case badReplica =>
    simp only [badReplicaBy, bind_eq_ok] at dispatched
    obtain ⟨_, _, sel, selected, _, ⟨entry, accepted, _⟩, _⟩ := dispatched
    obtain ⟨first, owner, _⟩ := objectBy_ok.mp accepted
    exact objects (kind ▸ rfl) sel selected _ first owner
  all_goals simp at dispatched

/-- No command changes a row of another owner. -/
theorem dispatchBy_kept {ident : Nat → Ident} {request : Internal} {response : Response}
    (unmixed : db.Unmixed e request.owner request.cmd request.fields)
    (dispatched : db.dispatchBy e c now ident request = .ok (response, db')) :
    OthersKept request.owner db db' := by
  cases kind : request.cmd <;>
    simp only [dispatchBy, kind, bind_eq_ok, require_eq_ok, pure_eq_ok, Prod.exists,
      Prod.mk.injEq] at dispatched
  case init =>
    obtain ⟨_, _, reply, after, initialized, _, rfl⟩ := dispatched
    exact .init keyed initialized
  case status =>
    obtain ⟨_, _, _, _, _, _, _, rfl⟩ := dispatched
    exact .refl _ db
  case prepare =>
    obtain ⟨_, _, sel, selected, prepared⟩ := dispatched
    exact prepareBy_kept keyed (unmixed.uploads (kind ▸ rfl) sel selected) prepared
  case complete =>
    obtain ⟨_, _, sel, selected, reply, after, completed, _, rfl⟩ := dispatched
    exact completeBy_kept keyed (unmixed.uploads (kind ▸ rfl) sel selected) completed
  case cancel =>
    obtain ⟨_, _, sel, selected, reply, after, cancelled, _, rfl⟩ := dispatched
    exact cancelBy_kept keyed (unmixed.uploads (kind ▸ rfl) sel selected) cancelled
  case manifest =>
    obtain ⟨_, _, _, _, _, _, _, rfl⟩ := dispatched
    exact .refl _ db
  case locations =>
    obtain ⟨_, _, _, _, _, _, _, rfl⟩ := dispatched
    exact .refl _ db
  case delete =>
    obtain ⟨_, _, sel, selected, reply, after, deleted, _, rfl⟩ := dispatched
    exact deleteBy_kept keyed (unmixed.objects (kind ▸ rfl) sel selected) deleted
  case badReplica =>
    obtain ⟨_, _, sel, selected, reply, after, marked, _, rfl⟩ := dispatched
    exact badReplicaBy_kept keyed (unmixed.objects (kind ▸ rfl) sel selected) marked
  all_goals simp at dispatched

end Commands

end Database

/-- Tables of a later transaction: rows stay where they belong. -/
structure Later (db db' : Database) : Prop where
  chunks : ∀ cid chunk, db.chunks.get? cid = some chunk →
    ∃ chunk', db'.chunks.get? cid = some chunk' ∧ chunk'.upload = chunk.upload
  uploads : ∀ upload row, db.uploads.get? upload = some row →
    ∃ row', db'.uploads.get? upload = some row' ∧ row'.object = row.object
  objects : ∀ oid object, db.objects.get? oid = some object →
    ∃ object', db'.objects.get? oid = some object' ∧ object'.owner = object.owner

theorem Grown.later {drawn : List Ident} {db db' : Database} (grown : Grown drawn db db') :
    Later db db' where
  chunks := by
    intro cid chunk stored
    obtain ⟨chunk', after, kept, _⟩ := grown.chunks cid chunk stored
    exact ⟨chunk', after, kept.upload⟩
  uploads := grown.uploads
  objects := by
    intro oid object stored
    obtain ⟨object', after, kept⟩ := grown.objects oid object stored
    exact ⟨object', after, kept.owner⟩

namespace Later

open Database

variable {db db' : Database} (later : Later db db') {user : String}
include later

theorem uploadOwner {upload : Ident} (owner : db.uploadOwner upload = some user) :
    db'.uploadOwner upload = some user := by
  simp only [Database.uploadOwner, objectOwner, Option.bind_eq_some_iff,
    Option.map_eq_some_iff] at owner ⊢
  obtain ⟨row, stored, object, located, owner⟩ := owner
  obtain ⟨row', stored', same⟩ := later.uploads upload row stored
  obtain ⟨object', located', kept⟩ := later.objects _ object located
  exact ⟨row', stored', object', same ▸ located', kept.trans owner⟩

theorem chunkOwner {cid : Ident} (owner : db.chunkOwner cid = some user) :
    db'.chunkOwner cid = some user := by
  simp only [Database.chunkOwner, Option.bind_eq_some_iff] at owner ⊢
  obtain ⟨chunk, stored, owner⟩ := owner
  obtain ⟨chunk', stored', same⟩ := later.chunks cid chunk stored
  exact ⟨chunk', stored', same ▸ later.uploadOwner owner⟩

end Later

namespace Database

variable {c : Config} {now : Time} {user : String} {db db' : Database}

theorem confirmBegin_owner {upload : Ident} {seq : Int} {op : Confirming}
    (begun : db.confirmBegin c now upload (some user) seq = .ok op) :
    op.upload = upload ∧ op.owner = some user ∧ db.uploadOwner upload = some user ∧
      db.chunkOwner op.chunk = some user := by
  simp only [confirmBegin, bind_eq_ok, require_eq_ok, found_eq_ok, pure_eq_ok, Prod.exists,
    active_ok, exists_const] at begun
  obtain ⟨row, object, ⟨stored, located, owned, _⟩, cid, chunk, selected, _, _, _, _, _, rfl⟩ :=
    begun
  have owner : object.owner = user := by simpa [eq_comm] using owned
  have uploader : db.uploadOwner upload = some user := by
    simp [uploadOwner_of_stored stored, objectOwner, located, owner]
  obtain ⟨present, part, _⟩ := db.chunkAt_eq_some selected
  exact ⟨rfl, rfl, uploader, by rw [chunkOwner_of_stored present, part, uploader]⟩

theorem confirmCommit_kept {op : Confirming} {bytes : Nat}
    (owner : db.chunkOwner op.chunk = some user)
    (committed : db.confirmCommit c now op = .ok (bytes, db')) : OthersKept user db db' := by
  have own : ¬Foreign user (db.chunkOwner op.chunk) := owner ▸ not_foreign_self user
  obtain ⟨_, _, settled, _, _, _, _, _, _, executed, rfl⟩ := confirmCommit_ok committed
  refine OthersKept.modifyChunk ?_ own _
  refine foldlM_invariant (OthersKept user db) _ _ ?_ executed (.refl user db)
  intro before position after _ kept body
  obtain ⟨row, _, rfl⟩ := confirmReplica_ok body
  split
  · exact (kept.modifyReplica own _ _).modifyNode _ _
  · exact kept

end Database

end FileServer.Metadata
