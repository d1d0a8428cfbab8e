import FileServer.Metadata.CreationMoves
import FileServer.Metadata.RetireMoves
import FileServer.Metadata.MaintenanceMoves

/-!
# The foreground commands as moves

`dispatch` makes at most two moves; the second transaction of `confirm` settles
one location after the other and then confirms the chunk.
-/

namespace FileServer.Metadata

open FileServer.Relational FileServer.Transition

/-- What a `confirm` knows of its chunk and locations between its transactions. -/
structure Confirming.Known (db : Database) (op : Confirming) : Prop where
  chunk : ∃ chunk, db.chunks.get? op.chunk = some chunk ∧ chunk.upload = op.upload ∧
    chunk.length = op.length ∧ chunk.sha = some op.sha
  seen : ∀ position ∈ op.positions, db.Seen position.node position.authorization.inst

inductive Command.Focuses (db : Database) (owner : String) : Command → Focus → Prop where
  | none (command) : Focuses db owner command .none
  | prepare (upload seq sha cid chunk row object) (stored : db.uploads.get? upload = some row)
      (found : db.objects.get? row.object = some object) (owned : object.owner = owner)
      (selected : db.chunkAt upload seq = some (cid, chunk)) :
      Focuses db owner (.prepare upload seq (some sha)) (.prepare cid sha)
  | publish (upload) : Focuses db owner (.complete upload) (.publish upload)

theorem Confirming.Known.grown {db db' : Database} {drawn : List Ident} {op : Confirming}
    (known : op.Known db) (grown : Grown drawn db db') : op.Known db' where
  chunk := by
    obtain ⟨chunk, stored, owned, sized, fixed⟩ := known.chunk
    obtain ⟨chunk', stored', kept, _⟩ := grown.chunks _ chunk stored
    exact ⟨chunk', stored', kept.upload.trans owned, kept.length.trans sized, kept.sha _ fixed⟩
  seen := fun position membership => grown.seen _ _ (known.seen position membership)

namespace Database

variable {db db' : Database} {c : Config} {now : Time} {focus : Focus} {drawn : List Ident}

theorem active_ok {upload : Ident} {owner : Option String} {writing : Bool} {row : UploadRow}
    {object : ObjectRow} :
    active now db upload owner writing = .ok (row, object) ↔
      db.uploads.get? upload = some row ∧ db.objects.get? row.object = some object ∧
      (owner = none ∨ owner = some object.owner) ∧
      (writing = true → object.state ≠ .deleted) ∧
      (writing = true → row.state = .uploading ∧ now < row.expires) := by
  simp only [active, bind_eq_ok, found_eq_ok, require_eq_ok, pure_eq_ok, Prod.mk.injEq,
    exists_const]
  constructor
  · rintro ⟨_, stored, _, located, owned, live, opened, rfl, rfl⟩
    exact ⟨stored, located, owned, live, opened⟩
  · rintro ⟨stored, located, owned, live, opened⟩
    exact ⟨row, stored, object, located, owned, live, opened, rfl, rfl⟩

theorem object_ok {oid : Ident} {owner : String} {row : ObjectRow} :
    object db oid owner = .ok row ↔
      db.objects.get? oid = some row ∧ row.owner = owner ∧ row.state = .published := by
  simp only [object, bind_eq_ok, found_eq_ok, require_eq_ok, pure_eq_ok, exists_const]
  constructor
  · rintro ⟨_, stored, owned, _, published, rfl⟩
    exact ⟨stored, owned, published⟩
  · rintro ⟨stored, owned, published⟩
    exact ⟨row, stored, owned, by simp [published], published, rfl⟩

def writable (db : Database) (cid : Ident) : List (NodeId × ReplicaRow × NodeRow) :=
  (db.copies cid).filter fun entry =>
    entry.2.1.volume = entry.2.2.volume ∧
      (entry.2.1.state = .reserved ∨ entry.2.1.state = .valid)

theorem positions_ok {cid upload : Ident} {length : Nat} {sha : Sha} {located : List Position} :
    positions c now db cid upload length sha = .ok located ↔
      (∀ entry ∈ db.writable cid, entry.2.2.Alive c now) ∧
      (db.writable cid).map (fun entry => ⟨entry.1, entry.2.2.address,
        ⟨upload, cid, length, sha, entry.1, entry.2.2.volume, entry.2.2.inst,
          now + c.authTtl⟩⟩) = located := by
  unfold positions writable
  exact mapM_guarded_eq_ok _ _ _ _

theorem mem_writable {cid : Ident} {nid : NodeId} {row : ReplicaRow} {node : NodeRow} :
    (nid, row, node) ∈ db.writable cid ↔ db.replicas.get? (cid, nid) = some row ∧
      db.nodes.get? nid = some node ∧ row.volume = node.volume ∧
      (row.state = .reserved ∨ row.state = .valid) := by
  simp only [writable, List.mem_filter, mem_copies, decide_eq_true_eq, and_assoc]

theorem prepare_ok {owner : String} {upload : Ident} {seq : Int} {sha : Option Sha}
    {reply : Reply} (prepared : prepare c now db owner upload seq sha = .ok (reply, db')) :
    ∃ row object cid chunk fixed located, db.uploads.get? upload = some row ∧
      db.objects.get? row.object = some object ∧ object.owner = owner ∧
      row.state = .uploading ∧ now < row.expires ∧ 0 ≤ seq ∧ sha = some fixed ∧
      db.chunkAt upload seq = some (cid, chunk) ∧ (chunk.sha = none ∨ chunk.sha = some fixed) ∧
      db' = { db with chunks := db.chunks.modify cid fun row => { row with sha := some fixed } } ∧
      positions c now db' cid upload chunk.length fixed = .ok located ∧
      located.length = object.replicas ∧ reply = .prepared cid chunk.length fixed located := by
  simp only [prepare, bind_eq_ok, require_eq_ok, found_eq_ok, pure_eq_ok, Prod.exists, active_ok,
    Prod.mk.injEq, exists_const] at prepared
  obtain ⟨row, object, ⟨stored, found, owned, _, _⟩, ⟨opened, alive⟩, positive, fixed, rfl, cid,
    chunk, selected, compatible, located, placed, counted, rfl, rfl⟩ := prepared
  refine ⟨row, object, cid, chunk, fixed, located, stored, found, ?_, opened, alive, positive, rfl,
    selected, compatible, rfl, placed, counted, rfl⟩
  simpa [eq_comm] using owned

theorem prepare_moves (consistent : Consistent db) {owner : String} {upload : Ident} {seq : Int}
    {sha : Option Sha} {reply : Reply}
    (prepared : prepare c now db owner upload seq sha = .ok (reply, db')) :
    ∃ focus, Command.Focuses db owner (.prepare upload seq sha) focus ∧
      Moves focus drawn db db' := by
  obtain ⟨row, object, cid, chunk, fixed, _, stored, found, owner, opened, _, _, rfl, selected,
    compatible, rfl, _, _, _⟩ := prepare_ok prepared
  obtain ⟨located, owned, _⟩ := db.chunkAt_eq_some selected
  have staging : db.phase cid = some .staging := by
    rw [← (consistent.linked.paired upload row object stored found).uploading_iff.mp opened]
    exact phase_of_object located (owned ▸ stored) found
  exact ⟨_, .prepare upload seq fixed cid chunk row object stored found owner selected,
    Moves.ofChunk _ (fun _ => rfl) (fun _ => rfl)
      (.fixSha cid chunk fixed rfl located staging compatible rfl rfl rfl)⟩

theorem checkChunks_ok {object : ObjectRow} {chunks : List (Ident × ChunkRow)} {index : Nat}
    (checked : checkChunks db object index chunks = .ok ⟨⟩) :
    ∀ entry ∈ chunks, entry.2.state = .confirmed ∧ object.replicas ≤
      ((db.replicasOf entry.1).filter fun replica => replica.2.state = .valid).length := by
  induction chunks generalizing index with
  | nil => simp
  | cons entry rest inductionHypothesis =>
      rcases entry with ⟨cid, chunk⟩
      simp only [checkChunks, bind_eq_ok, require_eq_ok, exists_const] at checked
      obtain ⟨⟨_, _, confirmed⟩, ready, later⟩ := checked
      intro other membership
      rcases List.mem_cons.mp membership with rfl | inRest
      · exact ⟨confirmed, ready⟩
      · exact inductionHypothesis later other inRest

theorem complete_ok {owner : String} {upload : Ident} {reply : Reply}
    (completed : complete now db owner upload = .ok (reply, db')) :
    ∃ row object, db.uploads.get? upload = some row ∧ db.objects.get? row.object = some object ∧
      object.owner = owner ∧ reply = .published row.object ∧
      ((row.state = .completed ∧ object.state = .published ∧ db' = db) ∨
        (row.state = .uploading ∧ now < row.expires ∧
          (db.chunksOf upload).length = chunkCount object.size object.chunkSize ∧
          checkChunks db object 0 (db.chunksOf upload) = .ok ⟨⟩ ∧
          db' = db.publish upload row.object)) := by
  simp only [complete, bind_eq_ok, Prod.exists, active_ok] at completed
  obtain ⟨row, object, ⟨stored, found, owned, _, _⟩, outcome⟩ := completed
  refine ⟨row, object, stored, found, by simpa [eq_comm] using owned, ?_⟩
  split at outcome
  · next already =>
      simp only [pure_eq_ok, Prod.mk.injEq] at outcome
      exact ⟨outcome.1.symm, .inl ⟨already.1, already.2, outcome.2.symm⟩⟩
  · simp only [bind_eq_ok, require_eq_ok, pure_eq_ok, Prod.mk.injEq, exists_const] at outcome
    obtain ⟨⟨opened, alive⟩, counted, _, checked, rfl, rfl⟩ := outcome
    exact ⟨rfl, .inr ⟨opened, alive, counted, checked, rfl⟩⟩

theorem publish_live {upload oid cid : Ident}
    (deleted : (db.publish upload oid).phase cid = some .deleted) :
    db.phase cid = some .deleted := by
  obtain ⟨chunk, row', object', stored, owned, found, state⟩ := phase_eq_some.mp deleted
  have rowBefore : ∃ row, db.uploads.get? chunk.upload = some row ∧ row.object = row'.object := by
    simp only [publish, Table.get?_modify] at owned
    split at owned
    · obtain ⟨row, before, rfl⟩ := Option.map_eq_some_iff.mp owned
      exact ⟨row, before, by split <;> rfl⟩
    · exact ⟨row', owned, rfl⟩
  have objectBefore : ∃ object, db.objects.get? row'.object = some object ∧
      object.state = .deleted := by
    simp only [publish, Table.get?_modify] at found
    split at found
    · obtain ⟨object, before, rfl⟩ := Option.map_eq_some_iff.mp found
      by_cases staging : object.state = .staging
      · simp [staging] at state
      · exact ⟨object, before, by simpa [staging] using state⟩
    · exact ⟨object', found, state⟩
  obtain ⟨row, before, same⟩ := rowBefore
  obtain ⟨object, located, ended⟩ := objectBefore
  exact phase_eq_some.mpr ⟨chunk, row, object, stored, before, same ▸ located, ended⟩

theorem complete_steps (consistent : Consistent db) {owner : String} {upload : Ident}
    {reply : Reply} (completed : complete now db owner upload = .ok (reply, db')) :
    Steps (.publish upload) drawn db db' := by
  obtain ⟨row, object, stored, found, _, _, outcome⟩ := complete_ok completed
  rcases outcome with ⟨_, _, rfl⟩ | ⟨opened, _, _, checked, rfl⟩
  · exact .refl
  · have ready := checkChunks_ok checked
    have life : LifeMove (.publish upload) drawn db (db.publish upload row.object) := by
      refine .publish upload row object rfl stored found opened ?_ rfl rfl rfl rfl
      intro cid chunk located owned
      exact ready (cid, chunk) (db.mem_chunksOf.mpr ⟨located, owned⟩)
    exact .single (Moves.ofLife life rfl rfl rfl rfl (fun _ => rfl) fun cid => publish_live)

theorem cancel_steps (consistent : Consistent db) {owner : String} {upload : Ident} {reply : Reply}
    (cancelled : cancel c now db owner upload = .ok (reply, db')) : Steps focus drawn db db' := by
  simp only [cancel, bind_eq_ok, Prod.exists, active_ok] at cancelled
  obtain ⟨row, object, ⟨stored, _⟩, outcome⟩ := cancelled
  split at outcome
  · simp only [pure_eq_ok, Prod.mk.injEq] at outcome
    exact outcome.2 ▸ .refl
  · simp only [bind_eq_ok, require_eq_ok, pure_eq_ok, Prod.mk.injEq, exists_const] at outcome
    obtain ⟨_, _, rfl⟩ := outcome
    exact .single (retire_moves consistent stored (.inl rfl))

theorem delete_steps (consistent : Consistent db) {owner : String} {oid : Ident} {reply : Reply}
    (deleted : delete c now db owner oid = .ok (reply, db')) : Steps focus drawn db db' := by
  simp only [delete, bind_eq_ok, found_eq_ok, require_eq_ok, exists_const] at deleted
  obtain ⟨object, _, _, outcome⟩ := deleted
  split at outcome
  · simp only [pure_eq_ok, Prod.mk.injEq] at outcome
    exact outcome.2 ▸ .refl
  · simp only [bind_eq_ok, found_eq_ok, pure_eq_ok, Prod.mk.injEq] at outcome
    obtain ⟨upload, selected, _, rfl⟩ := outcome
    obtain ⟨row, stored, _⟩ := db.uploadOf_eq_some selected
    exact .single (retire_moves consistent stored (.inl rfl))

theorem badReplica_steps {owner : String} {oid cid : Ident} {nid : NodeId}
    {reply : Reply} (reported : badReplica now db owner oid cid nid = .ok (reply, db')) :
    Steps focus drawn db db' := by
  simp only [badReplica, bind_eq_ok, object_ok, require_eq_ok, pure_eq_ok, Prod.mk.injEq,
    exists_const, Option.mem_def] at reported
  obtain ⟨object, ⟨found, _, published⟩, ⟨chunk, stored, upload, owned, rfl⟩, _, rfl⟩ := reported
  have phase : db.phase cid = some .published :=
    published ▸ phase_of_object stored owned found
  refine (Relation.ReflTransGen.single (Moves.ofMark _ (fun row => by split <;> rfl)
    fun row present => ?_)).tail (Moves.enqueue (.inl ?_) fun _ => ⟨rfl, .inl ?_⟩)
  · by_cases valid : row.state = .valid
    · rw [if_pos valid]
      exact .mark row valid
    · rw [if_neg valid]
      exact .keep _
  · exact ne_of_eq_of_ne phase (by simp)
  · exact phase

theorem dispatch_steps (consistent : Consistent db) {ident : Nat → Ident} {owner : String}
    {command : Command} {reply : Reply}
    (dispatched : dispatch c now ident db owner command = .ok (reply, db')) :
    ∃ focus, command.Focuses db owner focus ∧ Steps focus (command.drawn c ident) db db' := by
  simp only [dispatch, bind_eq_ok] at dispatched
  obtain ⟨_, _, dispatched⟩ := dispatched
  cases command with
  | init size name => exact ⟨.none, .none _, .single (init_moves consistent dispatched)⟩
  | prepare upload seq sha =>
      obtain ⟨focus, focuses, moves⟩ := prepare_moves consistent dispatched
      exact ⟨focus, focuses, .single moves⟩
  | complete upload => exact ⟨_, .publish upload, complete_steps consistent dispatched⟩
  | cancel upload => exact ⟨.none, .none _, cancel_steps consistent dispatched⟩
  | delete oid => exact ⟨.none, .none _, delete_steps consistent dispatched⟩
  | badReplica oid cid nid => exact ⟨.none, .none _, badReplica_steps dispatched⟩
  | status upload cursor | manifest oid | locations oid seq =>
      simp only [bind_eq_ok, pure_eq_ok, Prod.mk.injEq] at dispatched
      obtain ⟨_, _, _, rfl⟩ := dispatched
      exact ⟨.none, .none _, .refl⟩

/-- Only `prepare` hands out write authorizations. -/
theorem dispatch_prepared {ident : Nat → Ident} {owner : String} {command : Command} {cid : Ident}
    {length : Nat} {sha : Sha} {positions : List Position}
    (dispatched : dispatch c now ident db owner command =
      .ok (.prepared cid length sha positions, db')) :
    ∃ upload seq checksum, prepare c now db owner upload seq checksum =
      .ok (.prepared cid length sha positions, db') := by
  simp only [dispatch, bind_eq_ok] at dispatched
  obtain ⟨_, _, dispatched⟩ := dispatched
  cases command with
  | prepare upload seq checksum => exact ⟨upload, seq, checksum, dispatched⟩
  | init size name =>
      obtain ⟨_, _, _, _, _, _, _, _, _, _, _, _, _, _, _, reply⟩ := init_ok dispatched
      cases reply
  | complete upload =>
      obtain ⟨_, _, _, _, _, reply, _⟩ := complete_ok dispatched
      cases reply
  | cancel upload =>
      simp only [cancel, bind_eq_ok] at dispatched
      obtain ⟨_, _, dispatched⟩ := dispatched
      split at dispatched <;>
        simp only [bind_eq_ok, pure_eq_ok, Prod.mk.injEq, reduceCtorEq, false_and, and_false,
          exists_false] at dispatched
  | delete oid =>
      simp only [delete, bind_eq_ok] at dispatched
      obtain ⟨_, _, _, _, dispatched⟩ := dispatched
      split at dispatched <;>
        simp only [bind_eq_ok, pure_eq_ok, Prod.mk.injEq, reduceCtorEq, false_and, and_false,
          exists_false] at dispatched
  | status upload cursor =>
      simp only [status, bind_eq_ok, pure_eq_ok, Prod.mk.injEq] at dispatched
      obtain ⟨_, ⟨_, _, _, _, rfl⟩, ⟨⟩, _⟩ := dispatched
  | manifest oid =>
      simp only [manifest, bind_eq_ok, pure_eq_ok, Prod.mk.injEq] at dispatched
      obtain ⟨_, ⟨_, _, _, _, rfl⟩, ⟨⟩, _⟩ := dispatched
  | locations oid seq =>
      simp only [locations, bind_eq_ok, pure_eq_ok, Prod.mk.injEq] at dispatched
      obtain ⟨_, ⟨_, _, _, _, _, _, _, _, rfl⟩, ⟨⟩, _⟩ := dispatched
  | badReplica oid cid nid =>
      simp only [badReplica, bind_eq_ok, pure_eq_ok, Prod.mk.injEq] at dispatched
      obtain ⟨_, _, _, _, ⟨⟩, _⟩ := dispatched

/-- What the first transaction of a `confirm` establishes. -/
theorem confirmBegin_ok {upload : Ident} {owner : Option String} {seq : Int} {op : Confirming}
    (begun : db.confirmBegin c now upload owner seq = .ok op) :
    ∃ row object cid chunk sha, db.uploads.get? upload = some row ∧
      db.objects.get? row.object = some object ∧ row.state = .uploading ∧
      db.chunkAt upload seq = some (cid, chunk) ∧ chunk.sha = some sha ∧
      positions c now db cid upload chunk.length sha = .ok op.positions ∧
      op.positions.length = object.replicas ∧
      op = ⟨upload, owner, cid, chunk.length, sha, op.positions, op.positions, false⟩ := by
  simp only [confirmBegin, bind_eq_ok, require_eq_ok, found_eq_ok, pure_eq_ok, Prod.exists,
    active_ok, exists_const] at begun
  obtain ⟨row, object, ⟨stored, found, _, _, opened⟩, cid, chunk, selected, sha, fixed, located,
    placed, counted, rfl⟩ := begun
  exact ⟨row, object, cid, chunk, sha, stored, found, (opened trivial).1, selected, fixed, placed,
    counted, rfl⟩

theorem confirmBegin_known {upload : Ident} {owner : Option String} {seq : Int} {op : Confirming}
    (begun : db.confirmBegin c now upload owner seq = .ok op) : op.Known db := by
  obtain ⟨row, object, cid, chunk, sha, _, _, _, selected, fixed, placed, _, shape⟩ :=
    confirmBegin_ok begun
  obtain ⟨located, owned, _⟩ := db.chunkAt_eq_some selected
  rw [shape]
  refine ⟨⟨chunk, located, owned, rfl, fixed⟩, fun position membership => ?_⟩
  rw [← (positions_ok.mp placed).2] at membership
  obtain ⟨⟨nid, replica, node⟩, inRows, rfl⟩ := List.mem_map.mp membership
  exact .inl ⟨node, (db.mem_writable.mp inRows).2.1, rfl⟩

/-- What the second transaction of a `confirm` establishes. -/
theorem confirmCommit_ok {op : Confirming} {bytes : Nat}
    (committed : db.confirmCommit c now op = .ok (bytes, db')) :
    ∃ row object settled, db.uploads.get? op.upload = some row ∧
      db.objects.get? row.object = some object ∧ row.state = .uploading ∧
      (∀ entry ∈ db.writable op.chunk, entry.2.2.Alive c now) ∧ db.writable op.chunk ≠ [] ∧
      (db.writable op.chunk).map (fun entry => entry.2.2.inst) =
        op.positions.map (fun position => position.authorization.inst) ∧
      op.positions.foldlM (confirmReplica op.chunk op.length) db = .ok settled ∧
      db' = { settled with
        chunks := settled.chunks.modify op.chunk fun row => { row with state := .confirmed } } := by
  simp only [confirmCommit, bind_eq_ok, require_eq_ok, pure_eq_ok, Prod.exists, active_ok,
    positions_ok, exists_const, Prod.mk.injEq] at committed
  obtain ⟨_, row, object, ⟨stored, found, _, _, opened⟩, _, ⟨alive, rfl⟩, ⟨some, same⟩, settled,
    executed, _, rfl⟩ := committed
  refine ⟨row, object, settled, stored, found, (opened trivial).1, alive, ?_, ?_, executed, rfl⟩
  · rintro empty
    simp [empty] at some
  · simpa [List.map_map, Function.comp_def] using same

theorem confirmReplica_ok {cid : Ident} {length : Nat} {position : Position}
    (executed : confirmReplica cid length db position = .ok db') :
    ∃ row, db.replicas.get? (cid, position.node) = some row ∧
      db' = if row.state = .reserved then db.settle cid position.node length else db := by
  simp only [confirmReplica, bind_eq_ok, found_eq_ok, pure_eq_ok] at executed
  obtain ⟨row, stored, rfl⟩ := executed
  exact ⟨row, stored, rfl⟩

theorem confirmLoop_chunks {cid : Ident} {length : Nat} {positions : List Position}
    (executed : positions.foldlM (confirmReplica cid length) db = .ok db') :
    db'.chunks = db.chunks := by
  refine foldlM_invariant (fun middle : Database => middle.chunks = db.chunks) _ positions
    ?_ executed rfl
  intro middle position next _ same body
  obtain ⟨replica, _, rfl⟩ := confirmReplica_ok body
  split
  · rwa [settle_eq]
  · exact same

theorem confirmLoop_steps (consistent : Consistent db) {cid : Ident} {chunk : ChunkRow}
    (stored : db.chunks.get? cid = some chunk) (staging : db.phase cid = some .staging)
    (positions : List Position)
    (executed : positions.foldlM (confirmReplica cid chunk.length) db = .ok db') :
    Steps (.settle cid (positions.map Position.node)) drawn db db' ∧ SameLife db db' := by
  refine foldlM_invariant (fun middle =>
    Steps (.settle cid (positions.map Position.node)) drawn db middle ∧ SameLife db middle) _
    positions ?_ executed ⟨.refl, rfl, rfl, rfl, rfl⟩
  rintro middle position next membership ⟨steps, same⟩ body
  obtain ⟨row, present, rfl⟩ := confirmReplica_ok body
  split
  · next reserved =>
      have charged := (steps.consistent consistent).stagingReserved cid position.node row present
        ((same.phase cid).trans staging) reserved
      have sized : middle.lengthOf cid = chunk.length :=
        lengthOf_of_stored (same.chunks ▸ stored)
      refine ⟨steps.tail (Moves.settle
        ⟨_, rfl, List.mem_map_of_mem membership⟩ present reserved charged sized), ?_⟩
      rw [settle_eq]
      exact ⟨same.objects, same.uploads, same.chunks, same.instances⟩
  · exact ⟨steps, same⟩

theorem confirmCommit_steps (consistent : Consistent db) {op : Confirming} (known : op.Known db)
    {bytes : Nat} (committed : db.confirmCommit c now op = .ok (bytes, db')) :
    Steps (.settle op.chunk (op.positions.map Position.node)) drawn db db' := by
  obtain ⟨row, object, settled, stored, found, opened, _, _, _, executed, rfl⟩ :=
    confirmCommit_ok committed
  obtain ⟨chunk, located, owned, sized, fixed⟩ := known.chunk
  have staging : db.phase op.chunk = some .staging := by
    rw [← (consistent.linked.paired _ row object stored found).uploading_iff.mp opened]
    exact phase_of_object located (owned ▸ stored) found
  rw [← sized] at executed
  obtain ⟨steps, same⟩ := confirmLoop_steps consistent located staging _ executed
  refine steps.tail (Moves.ofChunk _ (fun _ => rfl) (fun _ => rfl) ?_)
  exact .confirm op.chunk chunk (same.chunks ▸ located) ((same.phase _).trans staging)
    (by simp [fixed]) rfl rfl rfl

theorem mem_expiredUploads {upload : Ident} (expired : upload ∈ db.expiredUploads now) :
    ∃ row, db.uploads.get? upload = some row := by
  obtain ⟨⟨_, row⟩, membership, rfl⟩ := List.mem_map.mp (List.mem_of_mem_take expired)
  exact ⟨row, db.uploads.mem_rows_iff.mp (List.mem_filter.mp membership).1⟩

theorem mem_publishedChunks {cid : Ident} {required : Nat}
    (listed : (cid, required) ∈ db.publishedChunks) : db.phase cid = some .published := by
  simp only [publishedChunks, List.mem_insertionSort, List.mem_filterMap, Option.bind_eq_some_iff,
    Prod.exists] at listed
  obtain ⟨_, _, _, chunk, upload, oid, object, known, selected⟩ := listed
  split at selected
  · next published =>
      cases selected
      simp [phase, known, published]
  · cases selected

theorem expireUploads_steps (consistent : Consistent db) (uploads : List Ident)
    (stored : ∀ upload ∈ uploads, ∃ row, db.uploads.get? upload = some row) :
    Steps focus drawn db
      (uploads.foldl (fun db upload => retire c now db upload .expired) db) := by
  refine foldl_invariant (Steps focus drawn db) _ uploads ?_ .refl
  intro middle upload membership steps
  obtain ⟨row, before⟩ := stored upload membership
  obtain ⟨row', present, _⟩ := steps.grown.uploads upload row before
  exact steps.tail (retire_moves (steps.consistent consistent) present (.inr rfl))

theorem repairChunks_steps (chunks : List (Ident × Nat))
    (published : ∀ entry ∈ chunks, db.phase entry.1 = some .published) :
    Steps focus drawn db (chunks.foldl (fun db entry =>
      if (healthy c now db entry.1).length < entry.2 then
        enqueue now db .repair entry.1 none 0
      else db) db) := by
  refine (foldl_invariant (fun middle => Steps focus drawn db middle ∧ SameLife db middle) _ chunks
    ?_ ⟨.refl, rfl, rfl, rfl, rfl⟩).1
  rintro middle entry membership ⟨steps, same⟩
  split
  · have phase : middle.phase entry.1 = some .published :=
      (same.phase _).trans (published entry membership)
    refine ⟨steps.tail (Moves.enqueue (.inl (by simp [phase])) fun _ => ⟨rfl, .inl phase⟩), ?_⟩
    · exact ⟨same.objects, same.uploads, same.chunks, same.instances⟩
  · exact ⟨steps, same⟩

/-- The transaction of `maintain` refreshes, retires and enqueues. -/
theorem maintain_steps (consistent : Consistent db) :
    Steps focus drawn db (db.maintain c now) := by
  have refreshed : Steps focus drawn db (db.refreshHealth c now) := .single refreshHealth_moves
  exact (refreshed.trans (expireUploads_steps (refreshed.consistent consistent) _
    fun upload => mem_expiredUploads)).trans (repairChunks_steps _ fun entry => mem_publishedChunks)

end Database

end FileServer.Metadata
