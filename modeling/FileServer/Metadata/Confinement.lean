import FileServer.Metadata.Ownership

/-!
# Replies from a user's own rows

A successful reply is the one that the tables give when they hold nothing but
the user's own objects, with what belongs to them, and the nodes.
-/

namespace FileServer.Metadata

open FileServer.Relational FileServer.Transition

namespace Database

/-- The tables without the rows of other owners. -/
def own (user : String) (db : Database) : Database where
  nodes := db.nodes
  objects := db.objects.filter fun _ row => row.owner = user
  uploads := db.uploads.filter fun upload _ => db.uploadOwner upload = some user
  chunks := db.chunks.filter fun cid _ => db.chunkOwner cid = some user
  replicas := db.replicas.filter fun key _ => db.chunkOwner key.1 = some user
  tasks := db.tasks.filter fun task _ => db.chunkOwner task.chunk = some user
  instances := db.instances

variable {e : Engine} {c : Config} {now : Time} {user : String} {key : Option Value}
  {db db' : Database} {sel : Selector}

section Rows

theorem own_object {oid : Ident} {row : ObjectRow} (stored : db.objects.get? oid = some row)
    (owner : row.owner = user) : (db.own user).objects.get? oid = some row := by
  simp [own, Table.get?_filter, stored, owner]

theorem own_upload {upload : Ident} {row : UploadRow} (stored : db.uploads.get? upload = some row)
    (owner : db.uploadOwner upload = some user) : (db.own user).uploads.get? upload = some row := by
  simp [own, Table.get?_filter, stored, owner]

theorem own_chunk {cid : Ident} {chunk : ChunkRow} (stored : db.chunks.get? cid = some chunk)
    (owner : db.chunkOwner cid = some user) : (db.own user).chunks.get? cid = some chunk := by
  simp [own, Table.get?_filter, stored, owner]

theorem own_replica (cid : Ident) (nid : NodeId) (owner : db.chunkOwner cid = some user) :
    (db.own user).replicas.get? (cid, nid) = db.replicas.get? (cid, nid) := by
  simp only [own, Table.get?_filter, owner, decide_true]
  cases db.replicas.get? (cid, nid) <;> rfl

/-- Filtering first what a second filter keeps anyway changes nothing. -/
theorem filter_filter_of_imp {α : Type} {keep chosen : α → Bool} {entries : List α}
    (implied : ∀ entry ∈ entries, chosen entry = true → keep entry = true) :
    (entries.filter keep).filter chosen = entries.filter chosen := by
  rw [List.filter_filter]
  apply List.filter_congr
  intro entry membership
  cases selected : chosen entry with
  | false => rfl
  | true => simp [implied entry membership selected]

end Rows

section Selections

theorem uploadsBy_own (owned : db.UploadsOwned user sel) :
    uploadsBy e (db.own user) sel = uploadsBy e db sel := by
  have rows : ((db.own user).uploads.rows.filter fun entry => sel entry.1) =
      db.uploads.rows.filter fun entry => sel entry.1 := by
    apply filter_filter_of_imp
    rintro ⟨upload, row⟩ membership selected
    simpa using owned upload row selected (db.uploads.mem_rows_iff.mp membership)
  unfold uploadsBy
  rw [rows]
  apply List.filterMap_congr
  intro upload membership
  obtain ⟨⟨_, row⟩, present, rfl⟩ := List.mem_map.mp ((e.order_perm _).mem_iff.mp membership)
  obtain ⟨inRows, selected⟩ := List.mem_filter.mp present
  have stored := db.uploads.mem_rows_iff.mp inRows
  have owner := owned _ row selected stored
  rw [own_upload stored owner, stored]
  simp only [uploadOwner, stored, Option.bind_some, objectOwner, Option.map_eq_some_iff] at owner
  obtain ⟨object, located, owner⟩ := owner
  simp [own_object located owner, located]

theorem objectsBy_own (owned : db.ObjectsOwned user sel) :
    objectsBy e (db.own user) sel = objectsBy e db sel := by
  have rows : ((db.own user).objects.rows.filter fun entry => sel entry.1) =
      db.objects.rows.filter fun entry => sel entry.1 := by
    apply filter_filter_of_imp
    rintro ⟨oid, row⟩ membership selected
    simpa using owned oid row selected (db.objects.mem_rows_iff.mp membership)
  unfold objectsBy
  rw [rows]
  apply List.filterMap_congr
  intro oid membership
  obtain ⟨⟨_, row⟩, present, rfl⟩ := List.mem_map.mp ((e.order_perm _).mem_iff.mp membership)
  obtain ⟨inRows, selected⟩ := List.mem_filter.mp present
  have stored := db.objects.mem_rows_iff.mp inRows
  rw [own_object stored (owned _ row selected stored), stored]

theorem UploadsOwned.chunkOwner (keyed : Keyed db) (owned : db.UploadsOwned user sel) {cid : Ident}
    {chunk : ChunkRow} (stored : db.chunks.get? cid = some chunk)
    (selected : sel chunk.upload = true) : db.chunkOwner cid = some user := by
  obtain ⟨row, belongs⟩ := keyed.chunkUpload cid chunk stored
  rw [chunkOwner_of_stored stored, owned _ row selected belongs]

theorem chunksAtBy_own (keyed : Keyed db) (owned : db.UploadsOwned user sel) (seq : Int) :
    chunksAtBy e (db.own user) sel seq = chunksAtBy e db sel seq := by
  have rows : ((db.own user).chunks.rows.filter fun entry =>
      sel entry.2.upload ∧ (entry.2.seq : Int) = seq) =
      db.chunks.rows.filter fun entry => sel entry.2.upload ∧ (entry.2.seq : Int) = seq := by
    apply filter_filter_of_imp
    rintro ⟨cid, chunk⟩ membership selected
    simp only [Bool.decide_and, Bool.and_eq_true, decide_eq_true_eq] at selected
    simpa using owned.chunkOwner keyed (db.chunks.mem_rows_iff.mp membership) selected.1
  unfold chunksAtBy
  rw [rows]
  apply List.filterMap_congr
  intro cid membership
  obtain ⟨⟨_, chunk⟩, present, rfl⟩ := List.mem_map.mp ((e.order_perm _).mem_iff.mp membership)
  obtain ⟨inRows, selected⟩ := List.mem_filter.mp present
  have stored := db.chunks.mem_rows_iff.mp inRows
  simp only [Bool.decide_and, Bool.and_eq_true, decide_eq_true_eq] at selected
  rw [own_chunk stored (owned.chunkOwner keyed stored selected.1), stored]

theorem chunksBy_own (keyed : Keyed db) (owned : db.UploadsOwned user sel) :
    chunksBy (db.own user) sel = chunksBy db sel := by
  unfold chunksBy
  congr 1
  apply filter_filter_of_imp
  rintro ⟨cid, chunk⟩ membership selected
  simpa using owned.chunkOwner keyed (db.chunks.mem_rows_iff.mp membership) selected

/-- Filtering first what a search looks for anyway changes nothing. -/
theorem find?_filter_of_imp {α : Type} {keep chosen : α → Bool} {entries : List α}
    (implied : ∀ entry ∈ entries, chosen entry = true → keep entry = true) :
    (entries.filter keep).find? chosen = entries.find? chosen := by
  rw [← List.head?_filter, ← List.head?_filter, filter_filter_of_imp implied]

theorem uploadOfBy_own (keyed : Keyed db) (owned : db.ObjectsOwned user sel) :
    uploadOfBy e (db.own user) sel = uploadOfBy e db sel := by
  unfold uploadOfBy
  congr 3
  apply filter_filter_of_imp
  rintro ⟨upload, row⟩ membership selected
  have stored := db.uploads.mem_rows_iff.mp membership
  obtain ⟨object, located⟩ := keyed.uploadObject _ _ stored
  simp [uploadOwner_of_stored stored, objectOwner, located, owned _ _ selected located]

theorem uploadOf_own {oid : Ident} (owner : db.objectOwner oid = some user) :
    (db.own user).uploadOf oid = db.uploadOf oid := by
  unfold uploadOf
  congr 1
  apply find?_filter_of_imp
  rintro ⟨upload, row⟩ membership selected
  simp only [decide_eq_true_eq] at selected
  subst selected
  simp [uploadOwner_of_stored (db.uploads.mem_rows_iff.mp membership), owner]

theorem chunkAt_own {upload : Ident} (owner : db.uploadOwner upload = some user) (seq : Int) :
    (db.own user).chunkAt upload seq = db.chunkAt upload seq := by
  unfold chunkAt
  apply find?_filter_of_imp
  rintro ⟨cid, chunk⟩ membership selected
  simp only [decide_eq_true_eq] at selected
  simp [chunkOwner_of_stored (db.chunks.mem_rows_iff.mp membership), selected.1, owner]

theorem replicasOf_own {cid : Ident} (owner : db.chunkOwner cid = some user) :
    (db.own user).replicasOf cid = db.replicasOf cid := by
  unfold replicasOf own Table.filter
  rw [List.filterMap_filter]
  apply List.filterMap_congr
  rintro ⟨⟨chunk, nid⟩, row⟩ _
  by_cases same : chunk = cid
  · subst chunk
    simp [owner]
  · simp [same]

theorem copies_own {cid : Ident} (owner : db.chunkOwner cid = some user) :
    (db.own user).copies cid = db.copies cid := by
  unfold copies
  rw [replicasOf_own owner]
  rfl

end Selections

section Replies

theorem activeBy_own (owned : db.UploadsOwned user sel) :
    activeBy e (db.own user) sel user = activeBy e db sel user := by
  simp only [activeBy, uploadsBy_own owned]

theorem objectBy_own (owned : db.ObjectsOwned user sel) :
    objectBy e (db.own user) sel user = objectBy e db sel user := by
  simp only [objectBy, objectsBy_own owned]

theorem positionsBy_congr {cid : Ident} (same : db'.copies cid = db.copies cid)
    (upload : Option Value) (length : Nat) (sha : Sha) :
    positionsBy c now db' cid upload length sha = positionsBy c now db cid upload length sha := by
  simp only [positionsBy, same]

theorem checkChunks_congr (object : ObjectRow) {chunks : List (Ident × ChunkRow)}
    (same : ∀ entry ∈ chunks, db'.replicasOf entry.1 = db.replicasOf entry.1) (index : Nat) :
    checkChunks db' object index chunks = checkChunks db object index chunks := by
  induction chunks generalizing index with
  | nil => rfl
  | cons entry rest inductionHypothesis =>
      simp only [checkChunks, same entry List.mem_cons_self,
        inductionHypothesis fun other inRest => same other (List.mem_cons_of_mem _ inRest)]

theorem statusBy_own (keyed : Keyed db) (owned : db.UploadsOwned user sel)
    (cursor : Option Value) :
    statusBy e (db.own user) sel user cursor = statusBy e db sel user cursor := by
  simp only [statusBy, activeBy_own owned, chunksBy_own keyed owned]

theorem prepareBy_own (keyed : Keyed db) (owned : db.UploadsOwned user sel)
    {upload seq sha : Option Value} {response : Response}
    (prepared : prepareBy e c now db sel user upload seq sha = .ok (response, db')) :
    ∃ after, prepareBy e c now (db.own user) sel user upload seq sha = .ok (response, after) := by
  simp only [prepareBy, bind_eq_ok, require_eq_ok, found_eq_ok, pure_eq_ok, Prod.mk.injEq,
    activeBy_own owned, chunksAtBy_own keyed owned] at prepared ⊢
  obtain ⟨opened, active, _, unexpired, position, sequence, _, positive, checksum, given,
    ⟨cid, chunk⟩, chosen, _, free, located, assigned, rest⟩ := prepared
  obtain ⟨stored, selected, _⟩ := mem_chunksAtBy.mp (List.mem_of_mem_head? chosen)
  have same : positionsBy c now { db.own user with
        chunks := (db.own user).chunks.modify cid fun row => { row with sha := some checksum } }
        cid upload chunk.length checksum =
      positionsBy c now { db with
        chunks := db.chunks.modify cid fun row => { row with sha := some checksum } }
        cid upload chunk.length checksum :=
    positionsBy_congr (copies_own (owned.chunkOwner keyed stored selected)) upload _ _
  obtain ⟨_, counted, replied, _⟩ := rest
  exact ⟨_, opened, active, ⟨⟩, unexpired, position, sequence, ⟨⟩, positive, checksum, given,
    (cid, chunk), chosen, ⟨⟩, free, located, same.trans assigned, ⟨⟩, counted, replied, rfl⟩

/-- An update that goes through does so without the rows of others. -/
theorem writes_own (writes : e.writes key (db.uploads.rows.map Prod.fst) = true) :
    e.writes key ((db.own user).uploads.rows.map Prod.fst) = true := by
  unfold Engine.writes at writes ⊢
  cases named : key.bind Value.number? with
  | none => rfl
  | some number =>
      rw [named] at writes
      exact e.updates_of_subset (List.filter_sublist.map Prod.fst).subset writes

theorem completeBy_own (keyed : Keyed db) (owned : db.UploadsOwned user sel) {reply : Reply}
    (completed : completeBy e now db sel user key = .ok (reply, db')) :
    ∃ after, completeBy e now (db.own user) sel user key = .ok (reply, after) := by
  have checks : ∀ object : ObjectRow,
      checkChunks (db.own user) object 0 (chunksBy db sel) =
        checkChunks db object 0 (chunksBy db sel) := by
    refine fun object => checkChunks_congr object ?_ 0
    rintro ⟨cid, chunk⟩ membership
    obtain ⟨inRows, selected⟩ := List.mem_filter.mp ((List.mem_insertionSort _).mp membership)
    exact replicasOf_own (owned.chunkOwner keyed (db.chunks.mem_rows_iff.mp inRows) selected)
  simp only [completeBy, bind_eq_ok, activeBy_own owned, chunksBy_own keyed owned,
    checks] at completed ⊢
  obtain ⟨opened, active, completed⟩ := completed
  split at completed
  · next finished =>
      simp only [pure_eq_ok, Prod.mk.injEq] at completed
      exact ⟨_, opened, active, by rw [if_pos finished, completed.1]; rfl⟩
  · next unfinished =>
      simp only [bind_eq_ok, require_eq_ok, pure_eq_ok, Prod.mk.injEq] at completed
      obtain ⟨_, unexpired, _, counted, _, checked, _, writes, rfl, _⟩ := completed
      refine ⟨(db.own user).publishBy sel opened.1.object, opened, active, ?_⟩
      rw [if_neg unfinished]
      simp only [bind_eq_ok, require_eq_ok, pure_eq_ok]
      exact ⟨⟨⟩, unexpired, ⟨⟩, counted, ⟨⟩, checked, ⟨⟩, writes_own writes, trivial⟩

theorem cancelBy_own (owned : db.UploadsOwned user sel) {reply : Reply}
    (cancelled : cancelBy e c now db sel user key = .ok (reply, db')) :
    ∃ after, cancelBy e c now (db.own user) sel user key = .ok (reply, after) := by
  have rows : ((db.own user).uploads.rows.filter fun entry => sel entry.1) =
      db.uploads.rows.filter fun entry => sel entry.1 := by
    apply filter_filter_of_imp
    rintro ⟨upload, row⟩ membership selected
    simpa using owned upload row selected (db.uploads.mem_rows_iff.mp membership)
  simp only [cancelBy, bind_eq_ok, activeBy_own owned] at cancelled ⊢
  obtain ⟨opened, active, cancelled⟩ := cancelled
  split at cancelled
  · next ended =>
      simp only [pure_eq_ok, Prod.mk.injEq] at cancelled
      exact ⟨_, opened, active, by rw [if_pos ended, cancelled.1]; rfl⟩
  · next running =>
      simp only [bind_eq_ok, require_eq_ok, pure_eq_ok, Prod.mk.injEq] at cancelled
      obtain ⟨_, unexpired, retired, ended, rfl, _⟩ := cancelled
      have ended' : ∃ after, retireBy e c now (db.own user) sel key .cancelled = .ok after := by
        simp only [retireBy, bind_eq_ok, require_eq_ok, rows] at ended ⊢
        obtain ⟨_, writes, ended⟩ := ended
        split at ended
        · exact ⟨_, ⟨⟩, writes_own writes, rfl⟩
        · exact ⟨_, ⟨⟩, writes_own writes, rfl⟩
        · cases ended
      obtain ⟨after, ended'⟩ := ended'
      refine ⟨after, opened, active, ?_⟩
      rw [if_neg running]
      simp only [bind_eq_ok, require_eq_ok, pure_eq_ok]
      exact ⟨⟨⟩, unexpired, after, ended', rfl⟩

theorem deleteBy_own (keyed : Keyed db) (owned : db.ObjectsOwned user sel) {reply : Reply}
    (deleted : deleteBy e c now db sel user = .ok (reply, db')) :
    ∃ after, deleteBy e c now (db.own user) sel user = .ok (reply, after) := by
  simp only [deleteBy, bind_eq_ok, found_eq_ok, require_eq_ok, objectsBy_own owned,
    uploadOfBy_own keyed owned] at deleted ⊢
  obtain ⟨first, chosen, _, owner, deleted⟩ := deleted
  split at deleted
  · next gone =>
      simp only [pure_eq_ok, Prod.mk.injEq] at deleted
      exact ⟨_, first, chosen, ⟨⟩, owner, by rw [if_pos gone, deleted.1]; rfl⟩
  · next present =>
      simp only [bind_eq_ok, found_eq_ok, pure_eq_ok, Prod.mk.injEq] at deleted
      obtain ⟨upload, belongs, rfl, _⟩ := deleted
      refine ⟨retire c now (db.own user) upload .cancelled, first, chosen, ⟨⟩, owner, ?_⟩
      rw [if_neg present]
      simp only [bind_eq_ok, found_eq_ok, pure_eq_ok]
      exact ⟨upload, belongs, rfl⟩

theorem object_own {oid : Ident} (owner : db.objectOwner oid = some user) :
    (db.own user).object oid user = db.object oid user := by
  simp only [objectOwner, Option.map_eq_some_iff] at owner
  obtain ⟨row, stored, owner⟩ := owner
  simp only [object, stored, own_object stored owner]

theorem manifestBy_own (owned : db.ObjectsOwned user sel) {reply : Reply}
    (listed : manifestBy e db sel user = .ok reply) :
    manifestBy e (db.own user) sel user = .ok reply := by
  simp only [manifestBy, bind_eq_ok, objectBy_own owned] at listed ⊢
  obtain ⟨⟨oid, row⟩, accepted, listed⟩ := listed
  obtain ⟨first, owner, _⟩ := objectBy_ok.mp accepted
  have held : db.objectOwner oid = some user := by
    obtain ⟨_, stored⟩ := mem_objectsBy.mp (List.mem_of_mem_head? first)
    rw [objectOwner, stored, Option.map_some, owner]
  refine ⟨(oid, row), accepted, ?_⟩
  simpa only [manifest, object_own held, uploadOf_own held] using listed

theorem locationsBy_own (owned : db.ObjectsOwned user sel) {seq : Option Value}
    {reply : Reply} (listed : locationsBy e c now db sel user seq = .ok reply) :
    locationsBy e c now (db.own user) sel user seq = .ok reply := by
  simp only [locationsBy, bind_eq_ok, objectBy_own owned] at listed ⊢
  obtain ⟨⟨oid, row⟩, accepted, listed⟩ := listed
  obtain ⟨first, owner, _⟩ := objectBy_ok.mp accepted
  have held : db.objectOwner oid = some user := by
    obtain ⟨_, stored⟩ := mem_objectsBy.mp (List.mem_of_mem_head? first)
    rw [objectOwner, stored, Option.map_some, owner]
  refine ⟨(oid, row), accepted, ?_⟩
  simp only [locations, bind_eq_ok, found_eq_ok, require_eq_ok, object_own held,
    uploadOf_own held] at listed ⊢
  obtain ⟨object, opened, upload, belongs, _, positive, ⟨cid, chunk⟩, chosen, located⟩ := listed
  obtain ⟨uploadRow, stored, same⟩ := db.uploadOf_eq_some belongs
  have uploader : db.uploadOwner upload = some user := by
    rw [uploadOwner_of_stored stored, same, held]
  obtain ⟨present, part, _⟩ := db.chunkAt_eq_some chosen
  have holder : db.chunkOwner cid = some user := by
    rw [chunkOwner_of_stored present, part, uploader]
  refine ⟨object, opened, upload, belongs, ⟨⟩, positive, (cid, chunk),
    (chunkAt_own uploader _).trans chosen, ?_⟩
  simpa only [healthy, copies_own holder] using located

theorem badReplicaBy_own (keyed : Keyed db) (owned : db.ObjectsOwned user sel)
    {chunk : Option Ident} {node : Option NodeId} {reply : Reply}
    (marked : badReplicaBy e now db sel user chunk node = .ok (reply, db')) :
    ∃ after, badReplicaBy e now (db.own user) sel user chunk node = .ok (reply, after) := by
  simp only [badReplicaBy, bind_eq_ok, found_eq_ok, require_eq_ok, pure_eq_ok, Prod.mk.injEq,
    objectBy_own owned] at marked ⊢
  obtain ⟨entry, accepted, cid, rfl, nid, rfl, _, ⟨row, stored, upload, belongs, selected⟩, rfl,
    _⟩ := marked
  obtain ⟨object, located⟩ := keyed.uploadObject _ _ belongs
  have uploader : db.uploadOwner row.upload = some user := by
    rw [uploadOwner_of_stored belongs, objectOwner, located, Option.map_some,
      owned _ _ selected located]
  have holder : db.chunkOwner cid = some user := (chunkOwner_of_stored stored).trans uploader
  exact ⟨_, entry, accepted, cid, rfl, nid, rfl, ⟨⟩, ⟨row, own_chunk stored holder, upload,
    own_upload belongs uploader, selected⟩, rfl, rfl⟩

end Replies

section Creation

/-- Two databases with the same nodes, the second with no more chunks. -/
structure Alike (first second : Database) : Prop where
  nodes : second.nodes = first.nodes
  chunks : ∀ cid, first.chunks.get? cid = none → second.chunks.get? cid = none

theorem Alike.reserveOn {first second : Database} (alike : Alike first second) (cid : Ident)
    (nid : NodeId) (volume : Ident) (length : Nat) :
    Alike (first.reserveOn cid nid volume length) (second.reserveOn cid nid volume length) where
  nodes := by simp only [Database.reserveOn, alike.nodes]
  chunks := alike.chunks

theorem Alike.reserveLoop (c : Config) (now : Time) {cid : Ident} {length count : Nat} {excluded : List NodeId}
    (nodes : List (NodeId × NodeRow)) (chosen : List NodeId) {first second : Database}
    (alike : Alike first second) :
    (Database.reserveLoop c now cid length count excluded nodes chosen first).1 =
        (Database.reserveLoop c now cid length count excluded nodes chosen second).1 ∧
      Alike (Database.reserveLoop c now cid length count excluded nodes chosen first).2
        (Database.reserveLoop c now cid length count excluded nodes chosen second).2 := by
  induction nodes generalizing chosen first second with
  | nil => exact ⟨rfl, alike⟩
  | cons entry rest inductionHypothesis =>
      simp only [Database.reserveLoop]
      split
      · exact inductionHypothesis chosen alike
      · split
        · exact inductionHypothesis chosen alike
        · split
          · exact ⟨rfl, alike.reserveOn ..⟩
          · exact inductionHypothesis _ (alike.reserveOn ..)

theorem Alike.insertChunk {first second : Database} (alike : Alike first second) {cid : Ident}
    (row : ChunkRow) (fresh : first.chunks.get? cid = none)
    (fresh' : second.chunks.get? cid = none) :
    Alike { first with chunks := first.chunks.insertNew cid row fresh }
      { second with chunks := second.chunks.insertNew cid row fresh' } where
  nodes := alike.nodes
  chunks := by
    intro other absent
    simp only [Table.get?_insertNew] at absent ⊢
    split at absent
    · cases absent
    · next different =>
        rw [if_neg different]
        exact alike.chunks other absent

theorem Alike.reserve {first second after : Database} (alike : Alike first second) {cid : Ident}
    {length count : Nat} {excluded chosen : List NodeId}
    (reserved : Database.reserve c now first cid length count excluded = .ok (chosen, after)) :
    ∃ after', Database.reserve c now second cid length count excluded = .ok (chosen, after') ∧
      Alike after after' := by
  have loads : second.nodesByLoad = first.nodesByLoad := by
    simp only [nodesByLoad, alike.nodes]
  simp only [Database.reserve, bind_eq_ok, require_eq_ok, pure_eq_ok, Prod.mk.injEq,
    loads] at reserved ⊢
  obtain ⟨same, related⟩ := alike.reserveLoop c now first.nodesByLoad []
  obtain ⟨_, counted, rfl, rfl⟩ := reserved
  exact ⟨_, ⟨⟨⟩, same ▸ counted, same.symm, rfl⟩, related⟩

theorem Alike.initChunk {first second after : Database} (alike : Alike first second) {size : Nat}
    {upload : Ident} {ident : Nat → Ident} {seq : Nat}
    (inserted : Database.initChunk c now size upload ident first seq = .ok after) :
    ∃ after', Database.initChunk c now size upload ident second seq = .ok after' ∧
      Alike after after' := by
  simp only [Database.initChunk, bind_eq_ok, found_eq_ok, pure_eq_ok, Table.insert?_eq_some,
    Prod.exists] at inserted ⊢
  obtain ⟨_, ⟨fresh, rfl⟩, chosen, _, reserved, rfl⟩ := inserted
  have fresh' := alike.chunks _ fresh
  obtain ⟨after', reserved', related⟩ := (alike.insertChunk _ fresh fresh').reserve reserved
  exact ⟨after', ⟨_, ⟨fresh', rfl⟩, chosen, after', reserved', rfl⟩, related⟩

theorem Alike.initChunks {size : Nat} {upload : Ident} {ident : Nat → Ident} (seqs : List Nat)
    {first second after : Database} (alike : Alike first second)
    (inserted : seqs.foldlM (Database.initChunk c now size upload ident) first = .ok after) :
    ∃ after', seqs.foldlM (Database.initChunk c now size upload ident) second = .ok after' := by
  induction seqs generalizing first second with
  | nil => exact ⟨second, rfl⟩
  | cons seq rest inductionHypothesis =>
      simp only [List.foldlM_cons, bind_eq_ok] at inserted ⊢
      obtain ⟨middle, executed, inserted⟩ := inserted
      obtain ⟨middle', executed', alike'⟩ := alike.initChunk executed
      obtain ⟨after', inserted'⟩ := inductionHypothesis alike' inserted
      exact ⟨after', middle', executed', inserted'⟩

theorem init_own {owner name : String} {size : Int} {ident : Nat → Ident} {reply : Reply}
    (initialized : init c now db owner size name ident = .ok (reply, db')) :
    ∃ after, init c now (db.own user) owner size name ident = .ok (reply, after) := by
  simp only [init, bind_eq_ok, found_eq_ok, require_eq_ok, pure_eq_ok, Table.insert?_eq_some,
    Prod.mk.injEq] at initialized ⊢
  obtain ⟨_, sized, _, named, _, ⟨freshObject, rfl⟩, _, ⟨freshUpload, rfl⟩, middle, created, rfl,
    _⟩ := initialized
  have freshObject' : (db.own user).objects.get? (ident 0) = none := by
    simp [own, Table.get?_filter, freshObject]
  have freshUpload' : (db.own user).uploads.get? (ident 1) = none := by
    simp [own, Table.get?_filter, freshUpload]
  have alike : Alike
      { db with
        objects := db.objects.insertNew (ident 0)
          ⟨owner, name, size.toNat, c.chunk, c.replicas, .staging⟩ freshObject
        uploads := db.uploads.insertNew (ident 1) ⟨ident 0, .uploading, now + c.ttl⟩ freshUpload }
      { db.own user with
        objects := (db.own user).objects.insertNew (ident 0)
          ⟨owner, name, size.toNat, c.chunk, c.replicas, .staging⟩ freshObject'
        uploads := (db.own user).uploads.insertNew (ident 1) ⟨ident 0, .uploading, now + c.ttl⟩
          freshUpload' } := by
    refine ⟨rfl, fun cid absent => ?_⟩
    simp only [own, Table.get?_filter]
    rw [show db.chunks.get? cid = none from absent]
    rfl
  obtain ⟨after, created'⟩ := alike.initChunks _ created
  exact ⟨_, ⟨⟩, sized, ⟨⟩, named, _, ⟨freshObject', rfl⟩, _, ⟨freshUpload', rfl⟩, after, created',
    rfl, rfl⟩

end Creation

section Confirmation

theorem positions_own {cid : Ident} (owner : db.chunkOwner cid = some user) (upload : Ident)
    (length : Nat) (sha : Sha) :
    positions c now (db.own user) cid upload length sha =
      positions c now db cid upload length sha := by
  simp only [positions, copies_own owner]

theorem active_own {upload : Ident} {asked : Option String} {writing : Bool}
    {opened : UploadRow × ObjectRow} (owner : db.uploadOwner upload = some user)
    (active : Database.active now db upload asked writing = .ok opened) :
    Database.active now (db.own user) upload asked writing = .ok opened := by
  obtain ⟨stored, located, rest⟩ := active_ok.mp active
  have held := owner
  rw [uploadOwner_of_stored stored, objectOwner, located, Option.map_some,
    Option.some.injEq] at owner
  exact active_ok.mpr ⟨own_upload stored held, own_object located owner, rest⟩

theorem confirmBegin_own {upload : Ident} {seq : Int} {op : Confirming}
    (begun : db.confirmBegin c now upload (some user) seq = .ok op) :
    (db.own user).confirmBegin c now upload (some user) seq = .ok op := by
  obtain ⟨rfl, _, uploader, holder⟩ := confirmBegin_owner begun
  simp only [confirmBegin, bind_eq_ok, chunkAt_own uploader] at begun ⊢
  obtain ⟨opened, active, ⟨cid, chunk⟩, chosen, sha, fixed, located, assigned, _, counted,
    shape⟩ := begun
  have same : op.chunk = cid := by rw [← pure_eq_ok.mp shape]
  rw [same] at holder
  exact ⟨opened, active_own uploader active, (cid, chunk), chosen, sha, fixed, located,
    (positions_own holder _ _ _).trans assigned, ⟨⟩, counted, shape⟩

theorem confirmLoop_alike {cid : Ident} {length : Nat} (positions : List Position)
    {first second after : Database}
    (rows : ∀ nid, second.replicas.get? (cid, nid) = first.replicas.get? (cid, nid))
    (executed : positions.foldlM (confirmReplica cid length) first = .ok after) :
    ∃ after', positions.foldlM (confirmReplica cid length) second = .ok after' ∧
      after.chunks = first.chunks ∧ after'.chunks = second.chunks := by
  induction positions generalizing first second with
  | nil =>
      exact ⟨second, rfl, by rw [← pure_eq_ok.mp executed], rfl⟩
  | cons position rest inductionHypothesis =>
      simp only [List.foldlM_cons, bind_eq_ok] at executed ⊢
      obtain ⟨middle, body, executed⟩ := executed
      obtain ⟨row, stored, rfl⟩ := confirmReplica_ok body
      have stored' : second.replicas.get? (cid, position.node) = some row :=
        (rows position.node).trans stored
      have rows' : ∀ nid,
          (if row.state = .reserved then second.settle cid position.node length
            else second).replicas.get? (cid, nid) =
          (if row.state = .reserved then first.settle cid position.node length
            else first).replicas.get? (cid, nid) := by
        intro nid
        split
        · simp only [settle_eq, Table.get?_modify, rows nid]
        · exact rows nid
      obtain ⟨after', executed', kept, kept'⟩ := inductionHypothesis rows' executed
      refine ⟨after', ⟨_, ?_, executed'⟩, ?_, ?_⟩
      · simp only [confirmReplica, stored', found, bind_eq_ok, pure_eq_ok]
        exact ⟨row, rfl, rfl⟩
      · rw [kept]
        split <;> simp [settle_eq]
      · rw [kept']
        split <;> simp [settle_eq]

theorem confirmCommit_own {op : Confirming} {bytes : Nat}
    (uploader : db.uploadOwner op.upload = some user)
    (holder : db.chunkOwner op.chunk = some user)
    (committed : db.confirmCommit c now op = .ok (bytes, db')) :
    ∃ after, (db.own user).confirmCommit c now op = .ok (bytes, after) := by
  simp only [confirmCommit, bind_eq_ok, pure_eq_ok, Prod.mk.injEq,
    positions_own holder] at committed ⊢
  obtain ⟨_, faultless, opened, active, current, located, _, same, settled, executed, rfl, _⟩ :=
    committed
  obtain ⟨settled', executed', kept, kept'⟩ :=
    confirmLoop_alike _ (fun nid => own_replica op.chunk nid holder) executed
  refine ⟨_, ⟨⟩, faultless, opened, active_own uploader active, current, located, ⟨⟩, same,
    settled', executed', ?_, rfl⟩
  have rows : ((settled'.chunks.modify op.chunk fun row =>
        { row with state := .confirmed }).rows.filter fun entry => entry.2.upload = op.upload) =
      (settled.chunks.modify op.chunk fun row =>
        { row with state := .confirmed }).rows.filter fun entry => entry.2.upload = op.upload := by
    rw [kept, kept']
    simp only [Table.modify, Table.mapRows, List.filter_map]
    congr 1
    apply filter_filter_of_imp
    rintro ⟨cid, chunk⟩ membership selected
    have part : chunk.upload = op.upload := by
      simp only [Function.comp_apply, decide_eq_true_eq] at selected
      split at selected <;> exact selected
    simpa [chunkOwner_of_stored (db.chunks.mem_rows_iff.mp membership), part] using uploader
  simp only [confirmedBytes, chunksOf, rows]

end Confirmation

/-- A successful reply of a command is that of the user's own rows. -/
theorem dispatchBy_own (keyed : Keyed db) {ident : Nat → Ident} {request : Internal}
    {response : Response} (unmixed : db.Unmixed e request.owner request.cmd request.fields)
    (dispatched : db.dispatchBy e c now ident request = .ok (response, db')) :
    ∃ after, (db.own request.owner).dispatchBy e c now ident request = .ok (response, after) := by
  have uploads : request.cmd.selectsUploads → ∀ sel, e.selector request.fields.uploadId = .ok sel → ∀ opened,
      activeBy e db sel request.owner = .ok opened → db.UploadsOwned request.owner sel := by
    rintro names sel selected ⟨row, object⟩ opened
    obtain ⟨_, first, owner⟩ := activeBy_ok.mp opened
    exact (unmixed.uploads names sel selected).owned keyed first owner
  have objects : request.cmd.selectsObjects → ∀ sel, e.selector request.fields.objectId = .ok sel → ∀ entry,
      objectBy e db sel request.owner = .ok entry → db.ObjectsOwned request.owner sel := by
    rintro names sel selected ⟨oid, row⟩ accepted
    obtain ⟨first, owner, _⟩ := objectBy_ok.mp accepted
    exact (unmixed.objects names sel selected).owned first owner
  cases kind : request.cmd <;>
    simp only [dispatchBy, kind, bind_eq_ok, require_eq_ok, pure_eq_ok, Prod.exists,
      Prod.mk.injEq] at dispatched ⊢
  case init =>
    obtain ⟨_, known, reply, after, initialized, rfl, _⟩ := dispatched
    obtain ⟨after, initialized⟩ := init_own initialized
    exact ⟨_, ⟨⟩, known, reply, after, initialized, rfl, rfl⟩
  case status =>
    obtain ⟨_, known, sel, selected, reply, answered, rfl, _⟩ := dispatched
    have opened := answered
    simp only [statusBy, bind_eq_ok] at opened
    obtain ⟨opened, active, _⟩ := opened
    rw [← statusBy_own keyed (uploads (kind ▸ rfl) sel selected opened active)] at answered
    exact ⟨_, ⟨⟩, known, sel, selected, reply, answered, rfl, rfl⟩
  case prepare =>
    obtain ⟨_, known, sel, selected, prepared⟩ := dispatched
    have opened := prepared
    simp only [prepareBy, bind_eq_ok] at opened
    obtain ⟨opened, active, _⟩ := opened
    obtain ⟨after, prepared⟩ := prepareBy_own keyed (uploads (kind ▸ rfl) sel selected opened active) prepared
    exact ⟨after, ⟨⟩, known, sel, selected, prepared⟩
  case complete =>
    obtain ⟨_, known, sel, selected, reply, _, completed, rfl, _⟩ := dispatched
    have opened := completed
    simp only [completeBy, bind_eq_ok] at opened
    obtain ⟨opened, active, _⟩ := opened
    obtain ⟨after, completed⟩ := completeBy_own keyed (uploads (kind ▸ rfl) sel selected opened active) completed
    exact ⟨_, ⟨⟩, known, sel, selected, reply, after, completed, rfl, rfl⟩
  case cancel =>
    obtain ⟨_, known, sel, selected, reply, _, cancelled, rfl, _⟩ := dispatched
    have opened := cancelled
    simp only [cancelBy, bind_eq_ok] at opened
    obtain ⟨opened, active, _⟩ := opened
    obtain ⟨after, cancelled⟩ := cancelBy_own (uploads (kind ▸ rfl) sel selected opened active) cancelled
    exact ⟨_, ⟨⟩, known, sel, selected, reply, after, cancelled, rfl, rfl⟩
  case manifest =>
    obtain ⟨_, known, sel, selected, reply, listed, rfl, _⟩ := dispatched
    have opened := listed
    simp only [manifestBy, bind_eq_ok] at opened
    obtain ⟨entry, accepted, _⟩ := opened
    exact ⟨_, ⟨⟩, known, sel, selected, reply,
      manifestBy_own (objects (kind ▸ rfl) sel selected entry accepted) listed, rfl, rfl⟩
  case locations =>
    obtain ⟨_, known, sel, selected, reply, listed, rfl, _⟩ := dispatched
    have opened := listed
    simp only [locationsBy, bind_eq_ok] at opened
    obtain ⟨entry, accepted, _⟩ := opened
    exact ⟨_, ⟨⟩, known, sel, selected, reply,
      locationsBy_own (objects (kind ▸ rfl) sel selected entry accepted) listed, rfl, rfl⟩
  case delete =>
    obtain ⟨_, known, sel, selected, reply, _, deleted, rfl, _⟩ := dispatched
    have opened := deleted
    simp only [deleteBy, bind_eq_ok, found_eq_ok, require_eq_ok, Prod.exists] at opened
    obtain ⟨oid, row, first, _, owner, _⟩ := opened
    obtain ⟨after, deleted⟩ := deleteBy_own keyed
      ((unmixed.objects (kind ▸ rfl) sel selected).owned first owner) deleted
    exact ⟨_, ⟨⟩, known, sel, selected, reply, after, deleted, rfl, rfl⟩
  case badReplica =>
    obtain ⟨_, known, sel, selected, reply, _, marked, rfl, _⟩ := dispatched
    have opened := marked
    simp only [badReplicaBy, bind_eq_ok] at opened
    obtain ⟨entry, accepted, _⟩ := opened
    obtain ⟨after, marked⟩ := badReplicaBy_own keyed (objects (kind ▸ rfl) sel selected entry accepted) marked
    exact ⟨_, ⟨⟩, known, sel, selected, reply, after, marked, rfl, rfl⟩
  all_goals simp at dispatched

end Database

/-- The rows left of later tables are later than those left of the earlier. -/
theorem Later.own {db db' : Database} (later : Later db db') (user : String) :
    Later (db.own user) (db'.own user) where
  chunks := by
    intro cid chunk stored
    simp only [Database.own, Table.get?_filter, Option.filter_eq_some_iff, decide_eq_true_eq]
      at stored ⊢
    obtain ⟨stored, owner⟩ := stored
    obtain ⟨chunk', stored', same⟩ := later.chunks cid chunk stored
    exact ⟨chunk', ⟨stored', later.chunkOwner owner⟩, same⟩
  uploads := by
    intro upload row stored
    simp only [Database.own, Table.get?_filter, Option.filter_eq_some_iff, decide_eq_true_eq]
      at stored ⊢
    obtain ⟨stored, owner⟩ := stored
    obtain ⟨row', stored', same⟩ := later.uploads upload row stored
    exact ⟨row', ⟨stored', later.uploadOwner owner⟩, same⟩
  objects := by
    intro oid object stored
    simp only [Database.own, Table.get?_filter, Option.filter_eq_some_iff, decide_eq_true_eq]
      at stored ⊢
    obtain ⟨stored, owner⟩ := stored
    obtain ⟨object', stored', same⟩ := later.objects oid object stored
    exact ⟨object', ⟨stored', same.trans owner⟩, same⟩

end FileServer.Metadata
