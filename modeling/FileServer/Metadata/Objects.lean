import FileServer.Metadata.Invariant
import FileServer.Sequence.Pieces

/-!
# Objects over a run

The chunk rows of an object cut it into pieces, its content is fixed when it
is published, and its state only moves forward.  What one transaction retains
of the tables is retained over a whole run.
-/

namespace FileServer.Metadata

open FileServer.Relational FileServer.Sequence FileServer.Transition

theorem Grown.mono {drawn drawn' : List Ident} {db db' : Database} (grown : Grown drawn db db')
    (more : drawn ⊆ drawn') : Grown drawn' db db' where
  objects := grown.objects
  uploads := grown.uploads
  chunks := grown.chunks
  absent := fun cid absent outside =>
    grown.absent cid absent fun membership => outside (more membership)
  replicas := grown.replicas
  nodes := grown.nodes
  seen := grown.seen

theorem visited_grown {history : List (Event State Action)} {σ τ : State}
    (run : Run metadata history σ) (seen : Visited history σ τ) :
    ∃ drawn, Grown drawn τ.db σ.db := by
  refine run.visited (fun σ σ' => ∃ drawn, Grown drawn σ.db σ'.db) (fun σ => ⟨[], .refl _⟩) ?_ ?_
    seen
  · rintro first second third ⟨drawn, earlier⟩ ⟨drawn', later⟩
    exact ⟨drawn ++ drawn', (earlier.mono (List.subset_append_left _ _)).trans
      (later.mono (List.subset_append_right _ _))⟩
  · intro σ action σ' reached stepped
    obtain ⟨_, _, drawn, _, effect⟩ := reachable_effect reached stepped
    exact ⟨drawn, effect.steps.grown⟩

namespace Database

structure Whole (db : Database) (upload : Ident) (object : ObjectRow) : Prop where
  sized : 0 < object.chunkSize
  numbered : ∀ seq, seq < chunkCount object.size object.chunkSize ↔
    ∃ cid chunk, db.chunks.get? cid = some chunk ∧ chunk.upload = upload ∧ chunk.seq = seq
  unique : ∀ first second chunk chunk', db.chunks.get? first = some chunk →
    db.chunks.get? second = some chunk' → chunk.upload = upload → chunk'.upload = upload →
    chunk.seq = chunk'.seq → first = second
  length : ∀ cid chunk, db.chunks.get? cid = some chunk → chunk.upload = upload →
    chunk.length = min object.chunkSize (object.size - chunk.seq * object.chunkSize)
  total : ((db.chunksOf upload).map fun entry => entry.2.length).sum = object.size

end Database

namespace Shaped

variable {db : Database} (shaped : Shaped db) {upload : Ident} {row : UploadRow}
  {object : ObjectRow} (stored : db.uploads.get? upload = some row)
  (located : db.objects.get? row.object = some object)
include shaped stored located

theorem seqs_perm : ((db.chunksOf upload).map fun entry => entry.2.seq).Perm
    (List.range (chunkCount object.size object.chunkSize)) := by
  have rows : (db.chunksOf upload).Nodup := by
    refine (List.perm_insertionSort _ _).nodup_iff.mpr (List.Nodup.filter _ ?_)
    exact db.chunks.keysNodup.of_map Prod.fst
  rw [List.perm_ext_iff_of_nodup _ List.nodup_range]
  · intro seq
    simp only [List.mem_map, Prod.exists, db.mem_chunksOf, List.mem_range]
    constructor
    · rintro ⟨cid, chunk, ⟨present, owned⟩, rfl⟩
      exact (shaped.bounded cid chunk row object present (owned ▸ stored) located).1
    · intro inRange
      obtain ⟨cid, chunk, present, owned, same⟩ :=
        shaped.numbered upload row object stored located seq inRange
      exact ⟨cid, chunk, ⟨present, owned⟩, same⟩
  · refine rows.map_on ?_
    rintro ⟨first, chunk⟩ membership ⟨second, chunk'⟩ membership' same
    obtain ⟨present, owned⟩ := db.mem_chunksOf.mp membership
    obtain ⟨present', owned'⟩ := db.mem_chunksOf.mp membership'
    obtain rfl := shaped.seqUnique _ _ _ _ present present' (owned.trans owned'.symm) same
    exact Prod.ext rfl (Option.some.inj (present.symm.trans present'))

theorem whole : db.Whole upload object where
  sized := shaped.sized _ object located
  numbered := by
    intro seq
    constructor
    · exact shaped.numbered upload row object stored located seq
    · rintro ⟨cid, chunk, present, owned, rfl⟩
      exact (shaped.bounded cid chunk row object present (owned ▸ stored) located).1
  unique := fun first second chunk chunk' present present' owned owned' same =>
    shaped.seqUnique first second chunk chunk' present present' (owned.trans owned'.symm) same
  length := fun cid chunk present owned =>
    (shaped.bounded cid chunk row object present (owned ▸ stored) located).2
  total := by
    have lengths : (db.chunksOf upload).map (fun entry => entry.2.length) =
        ((db.chunksOf upload).map fun entry => entry.2.seq).map fun seq =>
          min object.chunkSize (object.size - seq * object.chunkSize) := by
      rw [List.map_map]
      refine List.map_congr_left ?_
      rintro ⟨cid, chunk⟩ membership
      obtain ⟨present, owned⟩ := db.mem_chunksOf.mp membership
      exact (shaped.bounded cid chunk row object present (owned ▸ stored) located).2
    rw [lengths, ((shaped.seqs_perm stored located).map _).sum_eq]
    exact sum_lengths (shaped.sized _ object located) object.size

end Shaped

section Publication

variable {focus : Focus} {drawn : List Ident} {db db' : Database}

theorem LifeMove.published (life : LifeMove focus drawn db db') {oid : Ident} {object' : ObjectRow}
    (stored : db'.objects.get? oid = some object') (published : object'.state = .published) :
    (∃ object, db.objects.get? oid = some object ∧ object.state = .published) ∨
      ∃ upload, focus = .publish upload := by
  cases life with
  | same objects uploads chunks | fixSha _ _ _ _ _ _ _ objects uploads chunks
  | confirm _ _ _ _ _ objects uploads chunks =>
      exact .inl ⟨object', by rw [← objects, stored], published⟩
  | publish upload _ _ owner => exact .inr ⟨upload, owner⟩
  | retire _ _ _ _ _ objects uploads chunks =>
      rw [objects, Table.get?_modify] at stored
      split at stored
      · obtain ⟨object, found, rfl⟩ := Option.map_eq_some_iff.mp stored
        simp at published
      · exact .inl ⟨object', stored, published⟩
  | create new upload object row ids creation =>
      rw [creation.objects] at stored
      split at stored
      · cases stored
        simp [creation.staging] at published
      · exact .inl ⟨object', stored, published⟩

theorem Steps.published (steps : Steps focus drawn db db') (quiet : ∀ upload, focus ≠ .publish upload)
    {oid : Ident} {object' : ObjectRow} (stored : db'.objects.get? oid = some object')
    (published : object'.state = .published) :
    ∃ object, db.objects.get? oid = some object ∧ object.state = .published := by
  induction steps generalizing object' with
  | refl => exact ⟨object', stored, published⟩
  | tail _ moves inductionHypothesis =>
      rcases moves.life.published stored published with ⟨object, before, state⟩ | ⟨upload, owner⟩
      · exact inductionHypothesis before state
      · exact absurd owner (quiet upload)

/-- Every chunk of the object has as many replica rows as the object
requires. -/
def Database.Counted (db : Database) (oid : Ident) : Prop :=
  ∀ cid chunk row object, db.chunks.get? cid = some chunk →
    db.uploads.get? chunk.upload = some row → row.object = oid →
    db.objects.get? oid = some object → (db.replicasOf cid).length = object.replicas

theorem Moves.counted (moves : Moves focus drawn db db') (consistent : Consistent db) {oid : Ident}
    (unpublished : ∀ object, db'.objects.get? oid = some object → object.state ≠ .published)
    (counted : db.Counted oid) : db'.Counted oid := by
  rintro cid chunk' row' object' stored owned rfl located
  cases before : db.chunks.get? cid with
  | none =>
      obtain ⟨oid, upload, object, row, ids, creation, seq, inRange, rfl⟩ :=
        moves.life.newChunk before stored
      have created := (creation.created seq inRange).1
      rw [stored, Option.some.injEq] at created
      subst chunk'
      rw [creation.uploads, if_pos rfl, Option.some.injEq] at owned
      subst row'
      rw [creation.owned, creation.objects, if_pos rfl, Option.some.injEq] at located
      subst object'
      exact (creation.created seq inRange).2
  | some chunk =>
      obtain ⟨chunk'', after, kept, _⟩ := moves.life.chunks before
      obtain rfl := Option.some.inj (stored.symm.trans after)
      obtain ⟨row, ownedBefore⟩ := consistent.linked.chunkUpload cid chunk before
      obtain ⟨object, found⟩ := consistent.linked.uploadObject _ row ownedBefore
      obtain ⟨row'', ownedAfter, sameObject, _⟩ := moves.life.uploads ownedBefore
      rw [← kept.upload, owned, Option.some.injEq] at ownedAfter
      subst row''
      obtain ⟨object'', foundAfter, keptObject⟩ := moves.life.objects found
      rw [← sameObject, located, Option.some.injEq] at foundAfter
      subst object''
      rw [keptObject.replicas,
        ← counted cid chunk row object before ownedBefore sameObject.symm (sameObject ▸ found)]
      refine Database.replicasOf_length_congr (moves.sameRows consistent ?_ (by simp [before]))
      rw [Database.phase_of_object stored owned located]
      simpa using unpublished object' located

theorem Steps.counted (steps : Steps focus drawn db db') (consistent : Consistent db)
    (quiet : ∀ upload, focus ≠ .publish upload) {oid : Ident}
    (unpublished : ∀ object, db.objects.get? oid = some object → object.state ≠ .published)
    (counted : db.Counted oid) : db'.Counted oid := by
  induction steps with
  | refl => exact counted
  | tail earlier moves inductionHypothesis =>
      refine moves.counted (Steps.consistent earlier consistent) ?_ inductionHypothesis
      intro object' stored published
      obtain ⟨object, before, state⟩ :=
        Steps.published (earlier.tail moves) quiet stored published
      exact unpublished object before state

/-- A `complete` publishes the object of an upload. -/
structure Publishes (now : Time) (db db' : Database) (upload : Ident) (row : UploadRow)
    (object : ObjectRow) : Prop where
  stored : db.uploads.get? upload = some row
  located : db.objects.get? row.object = some object
  opened : row.state = .uploading
  alive : now < row.expires
  checked : Database.checkChunks db object 0 (db.chunksOf upload) = .ok ⟨⟩
  result : db' = db.publish upload row.object

end Publication

theorem Publishes.of_complete {c : Config} {now : Time} {db db' : Database} {owner : String}
    {upload : Ident} {ident : Nat → Ident} {reply : Reply}
    (dispatched : db.dispatch c now ident owner (.complete upload) = .ok (reply, db')) :
    db' = db ∨ ∃ row object, Publishes now db db' upload row object := by
  simp only [Database.dispatch, bind_eq_ok] at dispatched
  obtain ⟨_, _, completed⟩ := dispatched
  obtain ⟨row, object, stored, found, _, _, outcome⟩ := Database.complete_ok completed
  rcases outcome with ⟨_, _, same⟩ | ⟨opened, alive, _, checked, published⟩
  · exact .inl same
  · exact .inr ⟨row, object, stored, found, opened, alive, checked, published⟩

theorem step_publishes {σ σ' : State} {action : Action} (reached : Reachable metadata σ)
    (stepped : metadata.step σ action = some σ') :
    (∃ focus drawn, (∀ upload, focus ≠ .publish upload) ∧ Steps focus drawn σ.db σ'.db) ∨
      ∃ upload row object, Publishes σ.now σ.db σ'.db upload row object := by
  obtain ⟨focus, focuses, drawn, _, effect⟩ := reachable_effect reached stepped
  by_cases quiet : ∀ upload, focus ≠ .publish upload
  · exact .inl ⟨focus, drawn, quiet, effect.steps⟩
  simp only [not_forall, not_not] at quiet
  obtain ⟨upload, rfl⟩ := quiet
  cases focuses with
  | request c owner command ident focus focused =>
      cases focused
      cases happens stepped with
      | request _ _ _ _ fresh =>
          simp only
          cases dispatched : σ.db.dispatch c σ.now ident owner (.complete upload) with
          | error failure => exact .inl ⟨.none, [], by simp, .refl⟩
          | ok result =>
              rcases Publishes.of_complete dispatched with same | ⟨row, object, publishes⟩
              · exact .inl ⟨.none, [], by simp, by simp only [State.outcome, same]; exact .refl⟩
              · exact .inr ⟨upload, row, object, publishes⟩
      | confirm _ _ _ _ move => cases move
      | worker _ _ _ _ move => cases move
      | maintenance _ _ _ move => cases move
  | requestBy c e request ident focus move =>
      cases happens stepped with
      | requestBy _ _ _ _ fresh =>
          simp only
          generalize σ.outcome (σ.db.dispatchBy e.toEngine c σ.now ident request) = after at move ⊢
          cases move with
          | command command reply focus db' dispatched focused =>
              cases focused
              rcases Publishes.of_complete dispatched with rfl | ⟨row, object, publishes⟩
              · exact .inl ⟨.none, [], by simp, .refl⟩
              · exact .inr ⟨upload, row, object, publishes⟩
      | confirm _ _ _ _ move => cases move
      | worker _ _ _ _ move => cases move
      | maintenance _ _ _ move => cases move

/-- The request is accepted as the report of a copy of a deleted object's chunk:
its key selects a published object of its user first, and the deleted one too. -/
inductive ReportsDeleted (σ : State) : Action → Prop where
  | report (c e request ident sel oid object cid nid chunk row)
      (reports : request.cmd = .badReplica) (user : (c.users.lookup request.owner).isSome)
      (selects : e.selector request.fields.objectId = .ok sel)
      (opened : Database.objectBy e.toEngine σ.db sel request.owner = .ok (oid, object))
      (named : request.chunk = some cid) (copied : request.node = some nid)
      (stored : σ.db.chunks.get? cid = some chunk)
      (owned : σ.db.uploads.get? chunk.upload = some row) (selected : sel row.object = true)
      (deleted : σ.db.phase cid = some .deleted) : ReportsDeleted σ (.requestBy c e request ident)

section Fencing

variable {focus : Focus} {drawn : List Ident} {db db' : Database}

/-- No repair of a deleted object's chunk is outstanding. -/
def Database.Fenced (db : Database) : Prop :=
  ∀ key task, db.tasks.get? key = some task → key.kind = .repair →
    db.phase key.chunk = some .deleted → task.state = .done

theorem Moves.fenced (moves : Moves focus drawn db db') (fenced : db.Fenced)
    (kept : ∀ cid, focus = .report cid → db'.phase cid ≠ some .deleted) : db'.Fenced := by
  intro key task stored repair deleted
  by_cases already : db.phase key.chunk = some .deleted
  · have move := moves.tasks key
    rw [stored] at move
    generalize before : db.tasks.get? key = old at move
    have earlier : ∀ task, old = some task → task.state = .done :=
      fun task known => fenced key task (before.trans known) repair already
    cases move with
    | keep => exact earlier task rfl
    | enqueue old _ free pending known published =>
        rcases (published repair).2 with live | reported
        · simp [live] at deleted
        · exact absurd deleted (kept _ reported)
    | claim old _ owner due running => exact absurd (earlier old rfl) due
    | fail old _ running => simp [earlier old rfl] at running
    | finish old _ done => exact done
  · exact (moves.newlyDeleted key.chunk deleted already).2 key task stored repair rfl

theorem Steps.fenced (steps : Steps focus drawn db db') (consistent : Consistent db)
    (fenced : db.Fenced) (kept : ∀ cid, focus = .report cid → db'.phase cid ≠ some .deleted) :
    db'.Fenced := by
  induction steps with
  | refl => exact fenced
  | @tail middle next earlier moves inductionHypothesis =>
      refine moves.fenced (inductionHypothesis fun cid reported deleted => ?_) kept
      exact kept cid reported
        ((moves.life.phase (Steps.consistent earlier consistent).linked cid).deleted deleted)

theorem Database.phase_reported (db : Database) (now : Time) (cid : Ident) (nid : NodeId)
    (f : ReplicaRow → ReplicaRow) (other : Ident) :
    ((db.modifyReplica cid nid f).enqueue now .repair cid none 0).phase other = db.phase other :=
  SameLife.phase ⟨rfl, rfl, rfl, rfl⟩ other

end Fencing

section Reports

variable {σ σ' : State} {action : Action}

theorem ReportsDeleted.enqueues (reports : ReportsDeleted σ action)
    (stepped : metadata.step σ action = some σ') :
    ∃ cid, σ'.db.phase cid = some .deleted ∧ σ'.db.Outstanding ⟨.repair, cid, none⟩ := by
  cases reports with
  | report c e request ident sel oid object cid nid chunk row kind user selects opened named copied
      stored owned selected deleted =>
      have accepted : σ.db.dispatchBy e.toEngine c σ.now ident request = .ok (.reply .accepted,
          (σ.db.modifyReplica cid nid fun row =>
            if row.state = .valid then { row with state := .bad } else row).enqueue σ.now .repair
              cid none 0) := by
        simp only [Database.dispatchBy, kind, bind_eq_ok, require_eq_ok, pure_eq_ok, Prod.exists,
          Prod.mk.injEq, Database.badReplicaBy, found_eq_ok, exists_const]
        exact ⟨user, sel, selects, _, _, ⟨oid, object, opened, cid, named, nid, copied,
          ⟨chunk, stored, row, owned, selected⟩, rfl, rfl⟩, rfl, rfl⟩
      cases happens stepped with
      | requestBy _ _ _ _ fresh =>
          simp only [accepted, State.outcome]
          exact ⟨cid, (Database.phase_reported _ _ _ _ _ _).trans deleted,
            Database.enqueue_outstanding _ _ _ _ _⟩
      | confirm _ _ _ _ move => cases move
      | worker _ _ _ _ move => cases move
      | maintenance _ _ _ move => cases move

theorem step_fenced (reached : Reachable metadata σ) (stepped : metadata.step σ action = some σ')
    (healthy : ¬ReportsDeleted σ action) (fenced : σ.db.Fenced) : σ'.db.Fenced := by
  obtain ⟨focus, focuses, drawn, _, effect⟩ := reachable_effect reached stepped
  refine effect.steps.fenced (reachable_invariant reached).consistent fenced ?_
  rintro cid rfl deleted
  cases focuses with
  | request c owner command ident focus focused => cases focused
  | requestBy c e request ident focus move =>
      cases happens stepped with
      | requestBy _ _ _ _ fresh =>
          simp only at deleted
          generalize σ.outcome (σ.db.dispatchBy e.toEngine c σ.now ident request) = after at move deleted
          cases move with
          | command _ _ _ _ _ focused => cases focused
          | report sel oid object cid nid chunk row kind user selects opened named copied stored owned
              selected =>
              exact healthy (.report c e request ident sel oid object cid nid chunk row kind user
                selects opened named copied stored owned selected
                ((Database.phase_reported _ _ _ _ _ _).symm.trans deleted))
      | confirm _ _ _ _ move => cases move
      | worker _ _ _ _ move => cases move
      | maintenance _ _ _ move => cases move

end Reports

section Runs

variable {history : List (Event State Action)} {σ : State} (run : Run metadata history σ)
include run

/-- The object has never been published. -/
def Unpublished (history : List (Event State Action)) (σ : State) (oid : Ident) : Prop :=
  ∀ τ, Visited history σ τ →
    ∀ object, τ.db.objects.get? oid = some object → object.state ≠ .published

theorem run_counted {oid : Ident} (unpublished : Unpublished history σ oid) :
    σ.db.Counted oid := by
  revert unpublished
  refine run.historyInvariant (fun history σ => Unpublished history σ oid → σ.db.Counted oid) ?_ ?_
  · rintro - cid chunk row object stored
    simp [metadata, State.initial, Database.empty] at stored
  intro history σ action σ' earlier inductionHypothesis stepped unpublished
  have before := inductionHypothesis fun τ seen => unpublished τ (seen.next action)
  have consistent := (reachable_invariant earlier.reachable).consistent
  rcases step_publishes earlier.reachable stepped with
    ⟨focus, drawn, quiet, steps⟩ | ⟨upload, row, object, publishes⟩
  · exact steps.counted consistent quiet (unpublished σ ((Visited.last history σ).next action)) before
  · intro cid chunk row' object' stored owned same located
    rw [publishes.result] at stored owned located ⊢
    simp only [Database.publish, Table.get?_modify] at stored owned located
    have ownedBefore : ∃ old, σ.db.uploads.get? chunk.upload = some old ∧
        old.object = row'.object := by
      split at owned
      · obtain ⟨old, found, rfl⟩ := Option.map_eq_some_iff.mp owned
        exact ⟨old, found, by split <;> rfl⟩
      · exact ⟨row', owned, rfl⟩
    have locatedBefore : ∃ old, σ.db.objects.get? oid = some old ∧
        old.replicas = object'.replicas := by
      split at located
      · obtain ⟨old, found, rfl⟩ := Option.map_eq_some_iff.mp located
        exact ⟨old, found, by split <;> rfl⟩
      · exact ⟨object', located, rfl⟩
    obtain ⟨old, found, sameObject⟩ := ownedBefore
    obtain ⟨oldObject, foundObject, sameReplicas⟩ := locatedBefore
    rw [← sameReplicas]
    exact before cid chunk old oldObject stored found (sameObject.trans same) foundObject

theorem upload_kept {τ : State} (seen : Visited history σ τ) {upload : Ident} {row : UploadRow}
    {object : ObjectRow} (stored : τ.db.uploads.get? upload = some row)
    (located : τ.db.objects.get? row.object = some object) :
    ∃ row' object', σ.db.uploads.get? upload = some row' ∧ row'.object = row.object ∧
      σ.db.objects.get? row'.object = some object' ∧ ObjectKept object object' := by
  obtain ⟨_, grown⟩ := visited_grown run seen
  obtain ⟨row', storedAfter, same⟩ := grown.uploads _ row stored
  obtain ⟨object', locatedAfter, kept⟩ := grown.objects _ object located
  exact ⟨row', object', storedAfter, same, same ▸ locatedAfter, kept⟩

theorem chunk_present {τ : State} (seen : Visited history σ τ) {upload : Ident} {row : UploadRow}
    (stored : τ.db.uploads.get? upload = some row) {cid : Ident} {chunk : ChunkRow}
    (present : σ.db.chunks.get? cid = some chunk) (owned : chunk.upload = upload) :
    ∃ old, τ.db.chunks.get? cid = some old ∧ ChunkKept old chunk := by
  have shaped := (reachable_invariant run.reachable).consistent.shaped
  have consistent := (reachable_invariant (run.reached seen)).consistent
  obtain ⟨drawn, grown⟩ := visited_grown run seen
  obtain ⟨object, located⟩ := consistent.linked.uploadObject upload row stored
  obtain ⟨row', object', storedAfter, _, locatedAfter, keptObject⟩ :=
    upload_kept run seen stored located
  have inRange := (shaped.bounded cid chunk row' object' present (owned ▸ storedAfter)
    locatedAfter).1
  rw [keptObject.size, keptObject.chunkSize] at inRange
  obtain ⟨other, old, before, owned', same⟩ :=
    consistent.shaped.numbered upload row object stored located _ inRange
  obtain ⟨chunk', after, kept, _⟩ := grown.chunks other old before
  obtain rfl := shaped.seqUnique _ _ _ _ present after
    (owned.trans (owned'.symm.trans kept.upload.symm)) (same.symm.trans kept.seq.symm)
  obtain rfl := Option.some.inj (present.symm.trans after)
  exact ⟨old, before, kept⟩

theorem run_frozen {τ : State} (seen : Visited history σ τ) {upload : Ident} {row : UploadRow}
    {object : ObjectRow} (stored : τ.db.uploads.get? upload = some row)
    (located : τ.db.objects.get? row.object = some object) (opened : object.state ≠ .staging)
    (cid : Ident) (chunk : ChunkRow) (owned : chunk.upload = upload) :
    σ.db.chunks.get? cid = some chunk ↔ τ.db.chunks.get? cid = some chunk := by
  obtain ⟨drawn, grown⟩ := visited_grown run seen
  have kept : ∀ chunk, chunk.upload = upload → τ.db.chunks.get? cid = some chunk →
      σ.db.chunks.get? cid = some chunk := by
    intro chunk owned present
    obtain ⟨chunk', after, _, frozen⟩ := grown.chunks cid chunk present
    rw [after, frozen object.state
      (Database.phase_of_object present (owned ▸ stored) located) opened]
  refine ⟨fun present => ?_, kept chunk owned⟩
  obtain ⟨old, before, same⟩ := chunk_present run seen stored present owned
  rwa [← kept old (same.upload ▸ owned) before, present] at before

/-- Published objects are whole and frozen. -/
theorem objects_whole {oid : Ident} {object : ObjectRow}
    (stored : σ.db.objects.get? oid = some object) :
    ∃ upload row, σ.db.uploads.get? upload = some row ∧ row.object = oid ∧
      (∀ other row', σ.db.uploads.get? other = some row' → row'.object = oid → other = upload) ∧
      σ.db.Whole upload object ∧
      (Unpublished history σ oid → ∀ cid chunk, σ.db.chunks.get? cid = some chunk →
        chunk.upload = upload → (σ.db.replicasOf cid).length = object.replicas ∧
          ((σ.db.replicasOf cid).map Prod.fst).Nodup) ∧
      (∀ τ, Visited history σ τ → ∀ cid chunk, τ.db.chunks.get? cid = some chunk →
        chunk.upload = upload → ∃ chunk', σ.db.chunks.get? cid = some chunk' ∧
          (∀ sha, chunk.sha = some sha → chunk'.sha = some sha) ∧
          (chunk.state = .confirmed → chunk'.state = .confirmed)) ∧
      (∀ event ∈ history,
        (∀ before, event.before.db.objects.get? oid = some before → before.state ≠ .published) →
        (∃ after, event.after.db.objects.get? oid = some after ∧ after.state = .published) →
        ∀ cid chunk, event.before.db.chunks.get? cid = some chunk → chunk.upload = upload →
          chunk.state = .confirmed ∧ chunk.sha ≠ none ∧ object.replicas ≤
            ((event.before.db.replicasOf cid).filter fun entry => entry.2.state = .valid).length) ∧
      (∀ τ, Visited history σ τ →
        (∃ before, τ.db.objects.get? oid = some before ∧ before.state = .published) →
        ∀ cid chunk, chunk.upload = upload →
          (σ.db.chunks.get? cid = some chunk ↔ τ.db.chunks.get? cid = some chunk)) := by
  have consistent := (reachable_invariant run.reachable).consistent
  obtain ⟨upload, row, owned, rfl⟩ := consistent.linked.objectUpload oid object stored
  have only : ∀ other row', σ.db.uploads.get? other = some row' → row'.object = row.object →
      other = upload := fun other row' present same =>
    consistent.linked.uploadUnique _ _ _ _ present owned same
  refine ⟨upload, row, owned, rfl, only, consistent.shaped.whole owned stored, ?_, ?_, ?_, ?_⟩
  · intro unpublished cid chunk present belongs
    exact ⟨run_counted run unpublished cid chunk row object present (belongs ▸ owned) rfl stored,
      σ.db.replicasOf_nodup cid⟩
  · intro τ seen cid chunk present belongs
    obtain ⟨drawn, grown⟩ := visited_grown run seen
    obtain ⟨chunk', after, kept, _⟩ := grown.chunks cid chunk present
    exact ⟨chunk', after, kept.sha, kept.confirmed⟩
  · rintro event membership unpublished ⟨after, storedAfter, published⟩ cid chunk present belongs
    obtain ⟨reached, stepped⟩ := run.event membership
    have consistentBefore := (reachable_invariant reached).consistent
    rcases step_publishes reached stepped with
      ⟨focus, drawn, quiet, steps⟩ | ⟨other, row', object', publishes⟩
    · obtain ⟨before, storedBefore, state⟩ := steps.published quiet storedAfter published
      exact absurd state (unpublished before storedBefore)
    · obtain ⟨drawn, grown⟩ := visited_grown run (.inr ⟨event, membership, rfl⟩)
      have same : row'.object = row.object := by
        by_contra different
        rw [publishes.result] at storedAfter
        simp only [Database.publish, Table.get?_modify, if_neg (Ne.symm different)] at storedAfter
        exact unpublished after storedAfter published
      obtain ⟨later, storedLater, sameObject⟩ := grown.uploads other row' publishes.stored
      obtain rfl := only other later storedLater (sameObject.trans same)
      obtain ⟨object'', locatedLater, kept⟩ := grown.objects _ object' publishes.located
      rw [same, stored, Option.some.injEq] at locatedLater
      subst object''
      have ready := Database.checkChunks_ok publishes.checked (cid, chunk)
        (event.before.db.mem_chunksOf.mpr ⟨present, belongs⟩)
      exact ⟨ready.1, consistentBefore.shaped.confirmedSha cid chunk present ready.1,
        kept.replicas ▸ ready.2⟩
  · rintro τ seen ⟨before, storedBefore, published⟩ cid chunk belongs
    obtain ⟨drawn, grown⟩ := visited_grown run seen
    obtain ⟨other, row', ownedBefore, sameObject⟩ :=
      (reachable_invariant (run.reached seen)).consistent.linked.objectUpload _ before storedBefore
    obtain ⟨later, storedLater, kept⟩ := grown.uploads other row' ownedBefore
    obtain rfl := only other later storedLater (kept.trans sameObject)
    exact run_frozen run seen ownedBefore (sameObject ▸ storedBefore) (by simp [published]) cid
      chunk belongs

theorem run_fenced (healthy : ∀ event ∈ history, ¬ReportsDeleted event.before event.action) :
    σ.db.Fenced := by
  induction run with
  | start => simp [Database.Fenced, metadata, State.initial, Database.empty]
  | next earlier stepped inductionHypothesis =>
      exact step_fenced earlier.reachable stepped (healthy _ List.mem_cons_self)
        (inductionHypothesis fun event membership => healthy event (List.mem_cons_of_mem _ membership))

/-- What the history of a state says of it: the states of an upload and its
object are an admitted pair, an object's state only advances, and nothing comes
back of an object that has been deleted. -/
structure Lifecycle (history : List (Event State Action)) (σ : State) : Prop where
  paired : ∀ upload row, σ.db.uploads.get? upload = some row →
    ∃ object, σ.db.objects.get? row.object = some object ∧ Paired row.state object.state
  uploaded : ∀ oid object, σ.db.objects.get? oid = some object →
    ∃ upload row, σ.db.uploads.get? upload = some row ∧ row.object = oid
  advances : ∀ τ, Visited history σ τ → ∀ oid before, τ.db.objects.get? oid = some before →
    ∃ object, σ.db.objects.get? oid = some object ∧ Advances before.state object.state
  deleted : ∀ τ, Visited history σ τ → ∀ oid before, τ.db.objects.get? oid = some before →
    before.state = .deleted →
    (∀ cid chunk upload, σ.db.chunks.get? cid = some chunk →
      σ.db.uploads.get? chunk.upload = some upload → upload.object = oid →
      (∀ nid row, σ.db.replicas.get? (cid, nid) = some row →
        row.state = .deleting ∨ row.state = .gone) ∧
      ∀ task row, σ.db.tasks.get? task = some row → task.kind = .repair → task.chunk = cid →
        row.state = .done) ∧
    (∀ owner, (∀ reply, σ.db.manifest owner oid ≠ .ok reply) ∧
      ∀ c now seq reply, σ.db.locations c now owner oid seq ≠ .ok reply) ∧
    ∀ e sel owner found object, σ.db.objectBy e sel owner = .ok (found, object) → found ≠ oid

theorem lifecycle_of_run
    (healthy : ∀ event ∈ history, ¬ReportsDeleted event.before event.action) :
    Lifecycle history σ := by
  have consistent := (reachable_invariant run.reachable).consistent
  have advances : ∀ τ, Visited history σ τ → ∀ oid before, τ.db.objects.get? oid = some before →
      ∃ object, σ.db.objects.get? oid = some object ∧ Advances before.state object.state := by
    intro τ seen oid before stored
    obtain ⟨drawn, grown⟩ := visited_grown run seen
    obtain ⟨object, after, kept⟩ := grown.objects oid before stored
    exact ⟨object, after, kept.advances⟩
  refine ⟨?_, consistent.linked.objectUpload, advances, ?_⟩
  · intro upload row stored
    obtain ⟨object, located⟩ := consistent.linked.uploadObject upload row stored
    exact ⟨object, located, consistent.linked.paired upload row object stored located⟩
  · intro τ seen oid before stored deleted
    obtain ⟨object, located, moved⟩ := advances τ seen oid before stored
    rw [deleted] at moved
    have ended := moved.deleted
    have unpublished : ∀ result, σ.db.objects.get? oid = some result → result.state ≠ .published := by
      intro result found
      obtain rfl := Option.some.inj (located.symm.trans found)
      simp [ended]
    have refused : ∀ owner result, σ.db.object oid owner ≠ .ok result := by
      intro owner result accepted
      obtain ⟨found, _, published⟩ := Database.object_ok.mp accepted
      exact unpublished result found published
    refine ⟨?_, fun owner => ⟨?_, ?_⟩, ?_⟩
    · intro cid chunk upload present owned same
      have phase : σ.db.phase cid = some .deleted :=
        ended ▸ Database.phase_of_object present owned (same ▸ located)
      refine ⟨fun nid row replica => consistent.ended cid nid row phase replica, ?_⟩
      rintro task row enqueued repairs rfl
      exact run_fenced run healthy task row enqueued repairs phase
    · intro reply listed
      simp only [Database.manifest, bind_eq_ok] at listed
      obtain ⟨result, accepted, _⟩ := listed
      exact refused owner result accepted
    · intro c now seq reply listed
      simp only [Database.locations, bind_eq_ok] at listed
      obtain ⟨result, accepted, _⟩ := listed
      exact refused owner result accepted
    · rintro e sel owner found object accepted rfl
      obtain ⟨first, _, published⟩ := Database.objectBy_ok.mp accepted
      obtain ⟨_, stored⟩ := Database.mem_objectsBy.mp (List.mem_of_mem_head? first)
      exact unpublished object stored published

/-- In a run, an object that has been deleted stays so, and nothing of it comes
back, exactly when no copy of its chunks is reported afterwards. -/
theorem objects_lifecycle :
    (∀ earlier τ, earlier <:+ history → Run metadata earlier τ → Lifecycle earlier τ) ↔
      ∀ event ∈ history, ¬ReportsDeleted event.before event.action := by
  constructor
  · intro lifecycle event membership reports
    obtain ⟨later, earlier, rfl⟩ := List.append_of_mem membership
    obtain ⟨before, stepped⟩ := run.split
    obtain ⟨cid, phase, row, enqueued, pending⟩ := reports.enqueues stepped
    obtain ⟨chunk, upload, object, present, owned, located, deleted⟩ :=
      Database.phase_eq_some.mp phase
    have lost := (lifecycle (event :: earlier) event.after (List.suffix_append _ _)
      (before.next stepped)).deleted event.after (.inl rfl) _ object located deleted
    exact pending ((lost.1 cid chunk upload present owned rfl).2 _ row enqueued rfl rfl)
  · intro healthy earlier τ suffix earlierRun
    exact lifecycle_of_run earlierRun fun event membership =>
      healthy event (suffix.subset membership)

end Runs

/-- The object of the upload is published with its one chunk. -/
theorem objects_whole_uploaded : ∃ upload object,
    uploaded.db.objects.get? 1000 = some object ∧ object.state = .published ∧
      uploaded.db.Whole upload object := by
  have stored : uploaded.db.objects.get? 1000 =
      some ⟨"owner", "file", 1, 4, 2, .published⟩ := by decide +kernel
  obtain ⟨upload, _, _, _, _, whole, _⟩ := objects_whole uploaded_run stored
  exact ⟨upload, _, stored, rfl, whole⟩

section Samples

/-- An object of one byte is uploaded under identifiers from the given one on,
and published. -/
def publishActions (first : Ident) : List Action :=
  [.request installation "owner" (.init 1 "file") (first + ·),
    .request installation "owner" (.prepare (first + 1) 0 (some 7)) id,
    .confirm 0 installation (first + 1) (some "owner") 0,
    .confirmAsk 0, .confirmStat 0, .confirmAsk 0, .confirmStat 0,
    .confirmCommit 0 installation,
    .request installation "owner" (.complete (first + 1)) id]

/-- The identifiers of the two objects begin with a letter; the later is
published while there is no other, and deleted. -/
def earlierObject : Ident := 0xa0000000000000000000000000000000

def laterObject : Ident := 0xb0000000000000000000000000000000

def reportBy (object : Value) (chunk : Ident) : Internal where
  owner := "owner"
  cmd := .badReplica
  fields := ⟨none, some object, none, none, none, none, none⟩
  chunk := some chunk
  node := some 1

def replacedActions : List Action :=
  heartbeatActions 1 ++ heartbeatActions 2 ++ heartbeatActions 3 ++ publishActions laterObject ++
    [.request installation "owner" (.delete laterObject) id] ++ publishActions earlierObject

def reportActions : List Action := replacedActions ++
  [.requestBy installation .sorted (reportBy (.ident earlierObject) (earlierObject + 2)) id]

def reported : State :=
  (metadata.execute metadata.initial reportActions).get (by decide +kernel)

theorem reported_run : Run metadata (metadata.events metadata.initial reportActions) reported :=
  metadata.run reportActions _

/-- The copy of the deleted object is reported under the number zero. -/
def misreportActions : List Action := replacedActions ++
  [.requestBy installation .sorted (reportBy (.int 0) (laterObject + 2)) id]

def misreported : State :=
  (metadata.execute metadata.initial misreportActions).get (by decide +kernel)

theorem misreported_run :
    Run metadata (metadata.events metadata.initial misreportActions) misreported :=
  metadata.run misreportActions _

def Action.reports : Action → Option Ident
  | .requestBy _ _ asked _ => asked.chunk
  | _ => none

theorem ReportsDeleted.deleted {σ : State} {action : Action} (reports : ReportsDeleted σ action) :
    ∃ cid ∈ action.reports, σ.db.phase cid = some .deleted := by
  cases reports with
  | report _ _ _ _ _ _ _ cid _ _ _ _ _ _ _ named _ _ _ _ deleted => exact ⟨cid, named, deleted⟩

/-- Nothing comes back of the object that was deleted before the report. -/
theorem objects_lifecycle_reported :
    (∃ object, reported.db.objects.get? laterObject = some object ∧ object.state = .deleted) ∧
      Lifecycle (metadata.events metadata.initial reportActions) reported := by
  have healthy : ∀ event ∈ metadata.events metadata.initial reportActions,
      ∀ cid ∈ event.action.reports, event.before.db.phase cid ≠ some .deleted := by
    decide +kernel
  refine ⟨⟨⟨"owner", "file", 1, 4, 2, .deleted⟩, by decide +kernel, rfl⟩, ?_⟩
  refine (objects_lifecycle reported_run).mpr (fun event membership reports => ?_) _ _
    (List.suffix_refl _) reported_run
  obtain ⟨cid, named, deleted⟩ := reports.deleted
  exact healthy event membership cid named deleted

/-- A repair of the chunk is due again after its object was deleted. -/
theorem objects_lifecycle_misreported :
    ¬∀ history σ, Run metadata history σ → Lifecycle history σ := by
  intro lifecycle
  have located : misreported.db.objects.get? laterObject =
      some ⟨"owner", "file", 1, 4, 2, .deleted⟩ := by decide +kernel
  have present : ∃ chunk, misreported.db.chunks.get? (laterObject + 2) = some chunk ∧
      chunk.upload = laterObject + 1 := by
    exact ⟨_, (Option.some_get (by decide +kernel)).symm, by decide +kernel⟩
  have owned : ∃ upload, misreported.db.uploads.get? (laterObject + 1) = some upload ∧
      upload.object = laterObject := by
    exact ⟨_, (Option.some_get (by decide +kernel)).symm, by decide +kernel⟩
  have enqueued : ∃ task,
      misreported.db.tasks.get? ⟨.repair, laterObject + 2, none⟩ = some task ∧
        task.state = .pending := by
    exact ⟨_, (Option.some_get (by decide +kernel)).symm, by decide +kernel⟩
  obtain ⟨chunk, stored, belongs⟩ := present
  obtain ⟨upload, known, same⟩ := owned
  obtain ⟨task, row, pending⟩ := enqueued
  have lost :=
    (lifecycle _ _ misreported_run).deleted misreported (.inl rfl) laterObject _ located rfl
  have done := (lost.1 _ chunk upload stored (belongs ▸ known) same).2 _ task row rfl rfl
  simp [pending] at done

end Samples

end FileServer.Metadata
