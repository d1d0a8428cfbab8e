import FileServer.Metadata.Ownership

/-!
# Objects and reservations that a command adds

`init` adds one object with the reservations of its chunks.  No other command
of a user adds an object or a copy of a chunk.
-/

namespace FileServer.Metadata

open FileServer.Relational FileServer.Transition

/-- Neither an object nor a copy of a chunk is added. -/
structure AddsNone (db db' : Database) : Prop where
  objects : ∀ oid, db.objects.get? oid = none → db'.objects.get? oid = none
  replicas : ∀ cid nid, db.replicas.get? (cid, nid) = none → db'.replicas.get? (cid, nid) = none

/-- One object is added with one upload, and as many copies of each of its
chunks are reserved as the object requires. -/
structure Opens (db db' : Database) (oid upload : Ident) (object : ObjectRow) : Prop where
  absent : db.objects.get? oid = none
  stored : db'.objects.get? oid = some object
  objects : ∀ other, other ≠ oid → db.objects.get? other = none → db'.objects.get? other = none
  uploads : ∀ other, (∃ row, db'.uploads.get? other = some row ∧ row.object = oid) ↔ other = upload
  chunks : ∀ seq < chunkCount object.size object.chunkSize, ∃ cid chunk,
    db'.chunks.get? cid = some chunk ∧ chunk.upload = upload ∧ chunk.seq = seq ∧
      (db'.replicasOf cid).length = object.replicas
  reserved : ∀ cid nid, (db.replicas.get? (cid, nid) = none ∧
      ∃ row, db'.replicas.get? (cid, nid) = some row) ↔
    ∃ chunk row, db'.chunks.get? cid = some chunk ∧ chunk.upload = upload ∧
      db'.replicas.get? (cid, nid) = some row ∧ row.state = .reserved ∧ row.charged = .reserved

theorem Opens.not_addsNone {db db' : Database} {oid upload : Ident} {object : ObjectRow}
    (opens : Opens db db' oid upload object) : ¬AddsNone db db' := by
  intro none
  have kept := none.objects oid opens.absent
  rw [opens.stored] at kept
  cases kept

namespace AddsNone

theorem refl (db : Database) : AddsNone db db := ⟨fun _ absent => absent, fun _ _ absent => absent⟩

theorem of_same {db db' : Database} (objects : db'.objects = db.objects)
    (replicas : db'.replicas = db.replicas) : AddsNone db db' where
  objects oid absent := by rw [objects, absent]
  replicas cid nid absent := by rw [replicas, absent]

theorem retire {db : Database} (c : Config) (now : Time) {upload : Ident} {row : UploadRow}
    (stored : db.uploads.get? upload = some row) (state : UploadState) :
    AddsNone db (Database.retire c now db upload state) := by
  obtain ⟨_, retirement⟩ := Database.retire_ok c now stored state
  constructor
  · intro oid absent
    rw [retirement.objects]
    exact (Table.get?_modify_eq_none _ _ _ _).mpr absent
  · intro cid nid absent
    rw [retirement.get?_replicas, absent, Option.map_none]

end AddsNone

namespace Database

variable {e : Engine} {c : Config} {now : Time} {db db' : Database} {sel : Selector} {user : String}
  {key : Option Value}

theorem completeBy_changes {reply : Reply}
    (completed : completeBy e now db sel user key = .ok (reply, db')) :
    db' = db ∨ ∃ oid, db' = db.publishBy sel oid := by
  simp only [completeBy, bind_eq_ok] at completed
  obtain ⟨_, _, completed⟩ := completed
  split at completed
  · simp only [pure_eq_ok, Prod.mk.injEq] at completed
    exact .inl completed.2.symm
  · simp only [bind_eq_ok, pure_eq_ok, Prod.mk.injEq] at completed
    obtain ⟨_, _, _, _, _, _, _, _, _, rfl⟩ := completed
    exact .inr ⟨_, rfl⟩

theorem cancelBy_changes {reply : Reply}
    (cancelled : cancelBy e c now db sel user key = .ok (reply, db')) :
    db' = db ∨ ∃ upload row state, db.uploads.get? upload = some row ∧
      db' = retire c now db upload state := by
  simp only [cancelBy, bind_eq_ok] at cancelled
  obtain ⟨_, _, cancelled⟩ := cancelled
  split at cancelled
  · simp only [pure_eq_ok, Prod.mk.injEq] at cancelled
    exact .inl cancelled.2.symm
  · simp only [bind_eq_ok, pure_eq_ok, Prod.mk.injEq] at cancelled
    obtain ⟨_, _, retired, ended, _, rfl⟩ := cancelled
    simp only [retireBy, bind_eq_ok] at ended
    obtain ⟨_, _, ended⟩ := ended
    split at ended
    · exact .inl (pure_eq_ok.mp ended).symm
    · next upload only =>
        have listed : upload ∈ (db.uploads.rows.filter fun entry => sel entry.1).map Prod.fst := by
          rw [only]
          exact List.mem_singleton_self upload
        obtain ⟨⟨_, row⟩, present, rfl⟩ := List.mem_map.mp listed
        exact .inr ⟨_, row, _, db.uploads.mem_rows_iff.mp (List.mem_filter.mp present).1,
          (pure_eq_ok.mp ended).symm⟩
    · cases ended

theorem deleteBy_changes {reply : Reply}
    (deleted : deleteBy e c now db sel user = .ok (reply, db')) :
    db' = db ∨ ∃ upload row, db.uploads.get? upload = some row ∧ sel row.object ∧
      db' = retire c now db upload .cancelled := by
  simp only [deleteBy, bind_eq_ok] at deleted
  obtain ⟨_, _, _, _, deleted⟩ := deleted
  split at deleted
  · simp only [pure_eq_ok, Prod.mk.injEq] at deleted
    exact .inl deleted.2.symm
  · simp only [bind_eq_ok, found_eq_ok, pure_eq_ok, Prod.mk.injEq] at deleted
    obtain ⟨upload, chosen, _, rfl⟩ := deleted
    have listed := (e.order_perm _).mem_iff.mp (List.mem_of_mem_head? chosen)
    obtain ⟨⟨_, row⟩, present, rfl⟩ := List.mem_map.mp listed
    obtain ⟨inRows, selected⟩ := List.mem_filter.mp present
    exact .inr ⟨_, row, db.uploads.mem_rows_iff.mp inRows, selected, rfl⟩

theorem dispatchBy_addsNone {ident : Nat → Ident} {request : Internal} {response : Response}
    (other : request.cmd ≠ .init)
    (dispatched : db.dispatchBy e c now ident request = .ok (response, db')) : AddsNone db db' := by
  cases kind : request.cmd <;>
    simp only [dispatchBy, kind, bind_eq_ok, require_eq_ok, pure_eq_ok, Prod.exists,
      Prod.mk.injEq] at dispatched
  case init => exact absurd kind other
  case status | manifest | locations =>
    obtain ⟨_, _, _, _, _, _, _, rfl⟩ := dispatched
    exact .refl db
  case prepare =>
    obtain ⟨_, _, sel, _, prepared⟩ := dispatched
    obtain ⟨_, _, _, _, _, _, _, _, _, _, rfl⟩ := prepareBy_ok prepared
    exact .of_same rfl rfl
  case complete =>
    obtain ⟨_, _, sel, _, reply, after, completed, _, rfl⟩ := dispatched
    rcases completeBy_changes completed with rfl | ⟨oid, rfl⟩
    · exact .refl _
    · exact ⟨fun _ absent => (Table.get?_modify_eq_none _ _ _ _).mpr absent, fun _ _ absent => absent⟩
  case cancel =>
    obtain ⟨_, _, sel, _, reply, after, cancelled, _, rfl⟩ := dispatched
    rcases cancelBy_changes cancelled with rfl | ⟨_, _, state, stored, rfl⟩
    · exact .refl _
    · exact .retire c now stored state
  case delete =>
    obtain ⟨_, _, sel, _, reply, after, deleted, _, rfl⟩ := dispatched
    rcases deleteBy_changes deleted with rfl | ⟨_, _, stored, _, rfl⟩
    · exact .refl _
    · exact .retire c now stored .cancelled
  case badReplica =>
    obtain ⟨_, _, sel, _, reply, after, marked, _, rfl⟩ := dispatched
    simp only [badReplicaBy, bind_eq_ok, found_eq_ok, require_eq_ok, pure_eq_ok,
      Prod.mk.injEq] at marked
    obtain ⟨_, _, _, _, _, _, _, _, _, rfl⟩ := marked
    constructor
    · intro oid absent
      rw [enqueue_eq]
      exact absent
    · intro cid nid absent
      rw [enqueue_eq]
      exact (Table.get?_modify_eq_none _ _ _ _).mpr absent
  all_goals simp at dispatched

theorem confirmCommit_addsNone {op : Confirming} {bytes : Nat}
    (committed : db.confirmCommit c now op = .ok (bytes, db')) : AddsNone db db' := by
  obtain ⟨_, _, settled, _, _, _, _, _, _, executed, rfl⟩ := confirmCommit_ok committed
  have loop : AddsNone db settled := by
    refine foldlM_invariant (AddsNone db) _ _ ?_ executed (.refl db)
    intro before position after _ kept body
    obtain ⟨row, _, rfl⟩ := confirmReplica_ok body
    split
    · constructor
      · exact kept.objects
      · intro cid nid absent
        exact (Table.get?_modify_eq_none _ _ _ _).mpr (kept.replicas cid nid absent)
    · exact kept
  exact ⟨loop.objects, loop.replicas⟩

theorem init_opens (consistent : Consistent db) {owner name : String} {size : Int}
    {ident : Nat → Ident} {reply : Reply}
    (initialized : init c now db owner size name ident = .ok (reply, db')) :
    Opens db db' (ident 0) (ident 1) ⟨owner, name, size.toNat, c.chunk, c.replicas, .staging⟩ := by
  obtain ⟨creation, opened, created, _, chunks, replicas, _⟩ := init_creation consistent initialized
  refine ⟨creation.freshObject, by rw [creation.objects, if_pos rfl], ?_, ?_, ?_, ?_⟩
  · intro other different absent
    rw [creation.objects, if_neg different, absent]
  · intro other
    rw [creation.uploads]
    constructor
    · rintro ⟨row, stored, owned⟩
      split at stored
      · assumption
      · obtain ⟨object, located⟩ := consistent.linked.uploadObject other row stored
        rw [owned, creation.freshObject] at located
        cases located
    · rintro rfl
      exact ⟨_, if_pos rfl, rfl⟩
  · intro seq inRange
    obtain ⟨stored, counted⟩ := creation.created seq inRange
    exact ⟨_, _, stored, rfl, rfl, counted⟩
  · intro cid nid
    rcases created.rows cid nid with same | ⟨absent, ⟨seq, inRange, rfl⟩, node, _, stored⟩
    · rw [replicas] at same
      constructor
      · rintro ⟨absent, row, stored⟩
        rw [same, absent] at stored
        cases stored
      · rintro ⟨chunk, row, present, owned, stored, _⟩
        rw [same] at stored
        obtain ⟨old, before⟩ := consistent.replicaChunk cid nid row stored
        have known : db.uploads.get? old.upload ≠ none := by
          obtain ⟨upload, found⟩ := consistent.linked.chunkUpload cid old before
          simp [found]
        by_cases fresh : ∃ seq < chunkCount size.toNat c.chunk, cid = ident (seq + 2)
        · obtain ⟨seq, inRange, rfl⟩ := fresh
          rw [(creation.freshChunk seq inRange).1] at before
          cases before
        · simp only [not_exists, not_and] at fresh
          rw [creation.others cid fresh, before, Option.some.injEq] at present
          rw [present, owned] at known
          exact absurd creation.freshUpload known
    · rw [replicas] at absent
      constructor
      · intro _
        exact ⟨_, _, created.chunks seq inRange, rfl, stored, rfl, rfl⟩
      · intro _
        exact ⟨absent, _, stored⟩

end Database

end FileServer.Metadata
