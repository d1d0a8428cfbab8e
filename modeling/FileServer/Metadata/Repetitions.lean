import FileServer.Metadata.Keys

/-!
# Repetitions of a request

A request that succeeds settles the row its key finds first: the checksum of a
chunk is fixed, an upload is over, or an object is deleted.  A repetition
changes something only where the key finds another row first, which is not
settled.
-/

namespace FileServer.Metadata

open FileServer.Relational FileServer.Transition

/-- The requests of one transaction that a client may repeat. -/
inductive Cmd.Repeatable : Cmd → Prop where
  | prepare : Repeatable .prepare
  | complete : Repeatable .complete
  | cancel : Repeatable .cancel
  | delete : Repeatable .delete

theorem ObjectKept.opened {old new : ObjectRow} (kept : ObjectKept old new)
    (opened : old.state ≠ .staging) : new.state ≠ .staging := by
  have advances := kept.advances
  generalize old.state = before at advances opened
  generalize new.state = after at advances
  cases advances with
  | refl => exact opened
  | publish => exact absurd rfl opened
  | delete => simp

namespace Database

/-- The row that the request settles: a chunk, an upload or an object. -/
def settles (e : Engine) (db : Database) (request : Internal) : Option Ident :=
  match request.cmd with
  | .prepare => (db.addressed e request.fields).map Prod.fst
  | .complete | .cancel => (e.selector request.fields.uploadId).toOption.bind fun sel =>
      (db.uploadsBy e sel).head?.map Prod.fst
  | .delete => (e.selector request.fields.objectId).toOption.bind fun sel =>
      (db.objectsBy e sel).head?.bind fun entry =>
        if entry.2.state = .deleted then some entry.1
        else (db.uploadOfBy e sel).bind fun upload => (db.uploads.get? upload).map UploadRow.object
  | _ => none

/-- The request has its effect on the row. -/
inductive Settled (db : Database) : Cmd → Ident → Prop where
  | prepare (cid chunk) (stored : db.chunks.get? cid = some chunk) (fixed : chunk.sha ≠ none) :
      Settled db .prepare cid
  | upload (cmd upload row object) (ends : cmd = .complete ∨ cmd = .cancel)
      (stored : db.uploads.get? upload = some row)
      (located : db.objects.get? row.object = some object) (opened : object.state ≠ .staging) :
      Settled db cmd upload
  | delete (oid object) (located : db.objects.get? oid = some object)
      (deleted : object.state = .deleted) : Settled db .delete oid

/-- The request finds another row than it has settled, and one it can change. -/
inductive Strays (e : Engine) (now : Time) (db : Database) (request : Internal)
    (settled : Option Ident) : Prop where
  | chunk (sel row object cid chunk) (prepares : request.cmd = .prepare)
      (selects : e.selector request.fields.uploadId = .ok sel)
      (active : db.activeBy e sel request.owner = .ok (row, object))
      (opened : row.state = .uploading) (alive : now < row.expires)
      (found : db.addressed e request.fields = some (cid, chunk)) (other : settled ≠ some cid)
      (free : chunk.sha = none)
  | upload (sel upload row object) (ends : request.cmd = .complete ∨ request.cmd = .cancel)
      (selects : e.selector request.fields.uploadId = .ok sel)
      (found : (db.uploadsBy e sel).head? = some (upload, row, object))
      (other : settled ≠ some upload) (owned : object.owner = request.owner)
      (opened : row.state = .uploading) (alive : now < row.expires)
      (writes : e.writes request.fields.uploadId (db.uploads.rows.map Prod.fst) = true)
  | object (sel oid row) (deletes : request.cmd = .delete)
      (selects : e.selector request.fields.objectId = .ok sel)
      (found : (db.objectsBy e sel).head? = some (oid, row)) (other : settled ≠ some oid)
      (owned : row.owner = request.owner) (live : row.state ≠ .deleted)

variable {db db' : Database} {e : Engine} {c : Config} {now : Time} {ident : Nat → Ident}
  {request : Internal} {response : Response} {reply : Reply} {sel : Selector} {owner : String}

theorem Settled.grown {drawn : List Ident} {cmd : Cmd} {id : Ident} (settled : db.Settled cmd id)
    (grown : Grown drawn db db') : db'.Settled cmd id := by
  cases settled with
  | prepare _ chunk stored fixed =>
      obtain ⟨sha, given⟩ := Option.ne_none_iff_exists'.mp fixed
      obtain ⟨chunk', stored', kept, _⟩ := grown.chunks id chunk stored
      exact .prepare id chunk' stored' (by simp [kept.sha sha given])
  | upload _ _ row object ends stored located opened =>
      obtain ⟨row', stored', same⟩ := grown.uploads id row stored
      obtain ⟨object', located', kept⟩ := grown.objects _ object located
      exact .upload cmd id row' object' ends stored' (same ▸ located') (kept.opened opened)
  | delete _ object located deleted =>
      obtain ⟨object', located', kept⟩ := grown.objects _ object located
      exact .delete id object' located' (Advances.deleted (deleted ▸ kept.advances))

theorem Retirement.deleted {looped : Database} {upload : Ident} {row : UploadRow}
    {state : UploadState} (retirement : Retirement db looped db' upload row state)
    {object : ObjectRow} (located : db.objects.get? row.object = some object) :
    db'.uploads.get? upload = some { row with state } ∧
      db'.objects.get? row.object = some { object with state := .deleted } := by
  rw [retirement.uploads, retirement.objects, Table.get?_modify_self, Table.get?_modify_self,
    retirement.stored, located]
  exact ⟨rfl, rfl⟩

theorem completeBy_settled (consistent : Consistent db) {key : Option Value}
    (completed : completeBy e now db sel owner key = .ok (reply, db')) :
    ∃ entry, (db.uploadsBy e sel).head? = some entry ∧ db'.Settled .complete entry.1 := by
  simp only [completeBy, bind_eq_ok, Prod.exists, activeBy_ok] at completed
  obtain ⟨row, object, ⟨upload, first, _⟩, outcome⟩ := completed
  obtain ⟨selected, stored, located⟩ := mem_uploadsBy.mp (List.mem_of_mem_head? first)
  refine ⟨_, first, ?_⟩
  split at outcome
  · next already =>
      simp only [pure_eq_ok, Prod.mk.injEq] at outcome
      obtain ⟨_, rfl⟩ := outcome
      exact .upload _ upload row object (.inl rfl) stored located (by simp [already.2])
  · simp only [bind_eq_ok, require_eq_ok, pure_eq_ok, Prod.mk.injEq, exists_const] at outcome
    obtain ⟨⟨opened, _⟩, _, _, _, _, _, rfl⟩ := outcome
    have staging := (consistent.linked.paired upload row object stored located).uploading_iff.mp opened
    refine .upload _ upload { row with state := .completed } { object with state := .published }
      (.inl rfl) ?_ ?_ (by simp)
    · simp [publishBy, stored, selected, opened]
    · simp [publishBy, Table.get?_modify_self, located, staging]

theorem cancelBy_settled (consistent : Consistent db) {key : Option Value}
    (cancelled : cancelBy e c now db sel owner key = .ok (reply, db')) :
    ∃ entry, (db.uploadsBy e sel).head? = some entry ∧ db'.Settled .cancel entry.1 := by
  simp only [cancelBy, bind_eq_ok, Prod.exists, activeBy_ok] at cancelled
  obtain ⟨row, object, ⟨upload, first, _⟩, outcome⟩ := cancelled
  obtain ⟨selected, stored, located⟩ := mem_uploadsBy.mp (List.mem_of_mem_head? first)
  refine ⟨_, first, ?_⟩
  split at outcome
  · next already =>
      simp only [pure_eq_ok, Prod.mk.injEq] at outcome
      obtain ⟨_, rfl⟩ := outcome
      refine .upload _ upload row object (.inr rfl) stored located fun staging => ?_
      have opened := (consistent.linked.paired upload row object stored located).uploading_iff.mpr
        staging
      simp [opened] at already
  · simp only [bind_eq_ok, require_eq_ok, pure_eq_ok, Prod.mk.injEq, exists_const, retireBy] at outcome
    obtain ⟨_, _, ⟨_, retired⟩, _, rfl⟩ := outcome
    have listed : upload ∈ (db.uploads.rows.filter fun entry => sel entry.1).map Prod.fst :=
      List.mem_map.mpr ⟨(upload, row),
        List.mem_filter.mpr ⟨db.uploads.mem_rows_iff.mpr stored, selected⟩, rfl⟩
    split at retired
    · next none => simp [none] at listed
    · next other only =>
        rw [only, List.mem_singleton] at listed
        subst other
        obtain rfl := pure_eq_ok.mp retired
        obtain ⟨_, retirement⟩ := retire_ok c now stored .cancelled
        obtain ⟨stored', located'⟩ := retirement.deleted located
        exact .upload _ upload _ _ (.inr rfl) stored' located' (by simp)
    · cases retired

theorem deleteBy_settled (linked : Linked db)
    (deleted : deleteBy e c now db sel owner = .ok (reply, db')) :
    ∃ entry oid, (db.objectsBy e sel).head? = some entry ∧
      (if entry.2.state = .deleted then some entry.1
        else (db.uploadOfBy e sel).bind fun upload =>
          (db.uploads.get? upload).map UploadRow.object) = some oid ∧ db'.Settled .delete oid := by
  simp only [deleteBy, bind_eq_ok, found_eq_ok, require_eq_ok, exists_const, Prod.exists] at deleted
  obtain ⟨first, row, chosen, _, outcome⟩ := deleted
  obtain ⟨_, stored⟩ := mem_objectsBy.mp (List.mem_of_mem_head? chosen)
  split at outcome
  · next already =>
      simp only [pure_eq_ok, Prod.mk.injEq] at outcome
      obtain ⟨_, rfl⟩ := outcome
      exact ⟨_, first, chosen, if_pos already, .delete first row stored already⟩
  · next live =>
      simp only [bind_eq_ok, found_eq_ok, pure_eq_ok, Prod.mk.injEq] at outcome
      obtain ⟨upload, found, _, rfl⟩ := outcome
      have listed := (e.order_perm _).mem_iff.mp (List.mem_of_mem_head? found)
      obtain ⟨⟨_, owned⟩, present, rfl⟩ := List.mem_map.mp listed
      have held := db.uploads.mem_rows_iff.mp (List.mem_filter.mp present).1
      obtain ⟨object, located⟩ := linked.uploadObject _ owned held
      obtain ⟨_, retirement⟩ := retire_ok c now held .cancelled
      obtain ⟨_, located'⟩ := retirement.deleted located
      refine ⟨_, owned.object, chosen, ?_, .delete owned.object _ located' rfl⟩
      rw [if_neg live, found, Option.bind_some, held, Option.map_some]

theorem dispatchBy_settled (consistent : Consistent db) (repeatable : request.cmd.Repeatable)
    (dispatched : db.dispatchBy e c now ident request = .ok (response, db')) :
    ∃ id, db.settles e request = some id ∧ db'.Settled request.cmd id := by
  cases kind : request.cmd <;> rw [kind] at repeatable <;>
    simp only [dispatchBy, kind, bind_eq_ok, require_eq_ok, pure_eq_ok, Prod.exists,
      Prod.mk.injEq, exists_const] at dispatched
  case prepare =>
    obtain ⟨_, sel, selects, prepared⟩ := dispatched
    obtain ⟨position, checksum, cid, chunk, _, sequence, given, chosen, free, _, rfl⟩ :=
      prepareBy_ok prepared
    refine ⟨cid, ?_, .prepare cid { chunk with sha := some checksum } ?_ (by simp)⟩
    · simp only [settles, kind, addressed, selects, sequence, chosen, Except.toOption,
        Option.bind_some, Option.map_some]
    · simp [chunksAtBy_stored chosen]
  case complete =>
    obtain ⟨_, sel, selects, reply, after, completed, _, rfl⟩ := dispatched
    obtain ⟨entry, first, settled⟩ := completeBy_settled consistent completed
    refine ⟨entry.1, ?_, settled⟩
    simp only [settles, kind, selects, first, Except.toOption, Option.bind_some, Option.map_some]
  case cancel =>
    obtain ⟨_, sel, selects, reply, after, cancelled, _, rfl⟩ := dispatched
    obtain ⟨entry, first, settled⟩ := cancelBy_settled consistent cancelled
    refine ⟨entry.1, ?_, settled⟩
    simp only [settles, kind, selects, first, Except.toOption, Option.bind_some, Option.map_some]
  case delete =>
    obtain ⟨_, sel, selects, reply, after, deleted, _, rfl⟩ := dispatched
    obtain ⟨entry, oid, first, named, settled⟩ := deleteBy_settled consistent.linked deleted
    refine ⟨oid, ?_, settled⟩
    simp only [settles, kind, selects, first, Except.toOption, Option.bind_some, named]
  all_goals cases repeatable

theorem not_settled_of_uploading (linked : Linked db) {cmd : Cmd} {settled : Option Ident}
    {upload : Ident} {row : UploadRow} {object : ObjectRow} (known : ∀ id ∈ settled, db.Settled cmd id)
    (ends : cmd = .complete ∨ cmd = .cancel) (stored : db.uploads.get? upload = some row)
    (located : db.objects.get? row.object = some object) (opened : row.state = .uploading) :
    settled ≠ some upload := by
  rintro rfl
  cases known upload rfl with
  | prepare | delete => simp at ends
  | upload _ _ row' object' _ stored' located' closed =>
      obtain rfl := Option.some.inj (stored.symm.trans stored')
      obtain rfl := Option.some.inj (located.symm.trans located')
      exact closed ((linked.paired upload row object stored located).uploading_iff.mp opened)

theorem prepareBy_active {upload seq sha : Option Value}
    (prepared : prepareBy e c now db sel owner upload seq sha = .ok (response, db')) :
    ∃ row object, db.activeBy e sel owner = .ok (row, object) ∧ row.state = .uploading ∧
      now < row.expires := by
  simp only [prepareBy, bind_eq_ok, require_eq_ok, Prod.exists] at prepared
  obtain ⟨row, object, active, _, ⟨opened, alive⟩, _⟩ := prepared
  exact ⟨row, object, active, opened, alive⟩

theorem dispatchBy_again (consistent : Consistent db) (repeatable : request.cmd.Repeatable)
    {settled : Option Ident} (known : ∀ id ∈ settled, db.Settled request.cmd id)
    (steady : ¬db.Strays e now request settled)
    (dispatched : db.dispatchBy e c now ident request = .ok (response, db')) : db' = db := by
  cases kind : request.cmd <;> rw [kind] at repeatable known <;>
    simp only [dispatchBy, kind, bind_eq_ok, require_eq_ok, pure_eq_ok, Prod.exists,
      Prod.mk.injEq, exists_const] at dispatched
  case prepare =>
    obtain ⟨_, sel, selects, prepared⟩ := dispatched
    obtain ⟨row, object, active, opened, alive⟩ := prepareBy_active prepared
    obtain ⟨position, checksum, cid, chunk, _, sequence, given, chosen, free, _, rfl⟩ :=
      prepareBy_ok prepared
    have stored := chunksAtBy_stored chosen
    refine (fixed_eq_iff stored free).mpr fun fresh => steady ?_
    refine .chunk sel row object cid chunk kind selects active opened alive ?_ ?_ fresh
    · simp only [addressed, selects, sequence, chosen, Except.toOption, Option.bind_some]
    · rintro rfl
      cases known cid rfl with
      | prepare _ chunk' stored' fixed =>
          obtain rfl := Option.some.inj (stored.symm.trans stored')
          exact fixed fresh
      | upload _ _ _ _ ends => simp at ends
  case complete =>
    obtain ⟨_, sel, selects, reply, after, completed, _, rfl⟩ := dispatched
    simp only [completeBy, bind_eq_ok, Prod.exists, activeBy_ok] at completed
    obtain ⟨row, object, ⟨upload, first, owned⟩, outcome⟩ := completed
    obtain ⟨_, stored, located⟩ := mem_uploadsBy.mp (List.mem_of_mem_head? first)
    split at outcome
    · simp only [pure_eq_ok, Prod.mk.injEq] at outcome
      exact outcome.2.symm
    · simp only [bind_eq_ok, require_eq_ok, exists_const] at outcome
      obtain ⟨⟨opened, alive⟩, _, _, _, writes, _⟩ := outcome
      have other := not_settled_of_uploading consistent.linked known (.inl rfl) stored located opened
      exact absurd (.upload sel upload row object (.inl kind) selects first other owned opened alive
        writes) steady
  case cancel =>
    obtain ⟨_, sel, selects, reply, after, cancelled, _, rfl⟩ := dispatched
    simp only [cancelBy, bind_eq_ok, Prod.exists, activeBy_ok] at cancelled
    obtain ⟨row, object, ⟨upload, first, owned⟩, outcome⟩ := cancelled
    obtain ⟨_, stored, located⟩ := mem_uploadsBy.mp (List.mem_of_mem_head? first)
    split at outcome
    · simp only [pure_eq_ok, Prod.mk.injEq] at outcome
      exact outcome.2.symm
    · simp only [bind_eq_ok, require_eq_ok, exists_const, retireBy] at outcome
      obtain ⟨⟨opened, alive⟩, _, ⟨writes, _⟩, _⟩ := outcome
      have other := not_settled_of_uploading consistent.linked known (.inr rfl) stored located opened
      exact absurd (.upload sel upload row object (.inr kind) selects first other owned opened alive
        writes) steady
  case delete =>
    obtain ⟨_, sel, selects, reply, after, deleted, _, rfl⟩ := dispatched
    simp only [deleteBy, bind_eq_ok, found_eq_ok, require_eq_ok, exists_const, Prod.exists] at deleted
    obtain ⟨oid, row, first, owned, outcome⟩ := deleted
    split at outcome
    · simp only [pure_eq_ok, Prod.mk.injEq] at outcome
      exact outcome.2.symm
    · next live =>
        refine absurd (.object sel oid row kind selects first ?_ owned live) steady
        rintro rfl
        obtain ⟨_, stored⟩ := mem_objectsBy.mp (List.mem_of_mem_head? first)
        cases known oid rfl with
        | upload _ _ _ _ ends => simp at ends
        | delete _ object located deleted =>
            obtain rfl := Option.some.inj (stored.symm.trans located)
            exact live deleted
  all_goals cases repeatable

section Identifiers

variable {id : Ident}

theorem addressed_ident (key : request.fields.uploadId = some (.ident id)) {cid : Ident}
    {chunk : ChunkRow} (found : db.addressed e request.fields = some (cid, chunk)) :
    db.chunks.get? cid = some chunk ∧ chunk.upload = id ∧
      request.fields.seq.bind Value.int? = some (chunk.seq : Int) := by
  simp only [addressed, key, Engine.selector, Except.toOption, Option.bind_some] at found
  obtain ⟨position, sequence, chosen⟩ := Option.bind_eq_some_iff.mp found
  obtain ⟨stored, selected, rfl⟩ := mem_chunksAtBy.mp (List.mem_of_mem_head? chosen)
  exact ⟨stored, of_decide_eq_true selected, sequence⟩

theorem settles_ident (other : request.cmd ≠ .prepare)
    (uploads : request.cmd ≠ .delete → request.fields.uploadId = some (.ident id))
    (objects : request.cmd = .delete → request.fields.objectId = some (.ident id))
    {settled : Ident} (settles : db.settles e request = some settled) : settled = id := by
  cases kind : request.cmd <;> simp only [Database.settles, kind, reduceCtorEq] at settles
  case prepare => exact absurd kind other
  case complete | cancel =>
    rw [uploads (by simp [kind])] at settles
    simp only [Engine.selector, Except.toOption, Option.bind_some, Option.map_eq_some_iff,
      Prod.exists] at settles
    obtain ⟨_, row, object, first, rfl⟩ := settles
    exact of_decide_eq_true (mem_uploadsBy.mp (List.mem_of_mem_head? first)).1
  case delete =>
    rw [objects kind] at settles
    simp only [Engine.selector, Except.toOption, Option.bind_some, Option.bind_eq_some_iff,
      Prod.exists] at settles
    obtain ⟨oid, row, first, found⟩ := settles
    split at found
    · obtain rfl := Option.some.inj found
      exact of_decide_eq_true (mem_objectsBy.mp (List.mem_of_mem_head? first)).1
    · obtain ⟨upload, chosen, owned⟩ := Option.bind_eq_some_iff.mp found
      obtain ⟨row, stored, rfl⟩ := Option.map_eq_some_iff.mp owned
      have listed := (e.order_perm _).mem_iff.mp (List.mem_of_mem_head? chosen)
      obtain ⟨⟨_, held⟩, present, rfl⟩ := List.mem_map.mp listed
      obtain ⟨inRows, selected⟩ := List.mem_filter.mp present
      obtain rfl := Option.some.inj ((db.uploads.mem_rows_iff.mp inRows).symm.trans stored)
      exact of_decide_eq_true selected

/-- An identifier finds again the row that it found. -/
theorem not_strays_of_ident {e' : Engine} {now' : Time} {drawn : List Ident}
    (consistent : Consistent db') (grown : Grown drawn db db')
    (uploads : request.cmd ≠ .delete → request.fields.uploadId = some (.ident id))
    (objects : request.cmd = .delete → request.fields.objectId = some (.ident id))
    {settled : Ident} (settles : db.settles e request = some settled) :
    ¬db'.Strays e' now' request (some settled) := by
  intro strays
  cases strays with
  | chunk sel row object cid chunk prepares selects active opened alive found other =>
      simp only [Database.settles, prepares, Option.map_eq_some_iff, Prod.exists] at settles
      obtain ⟨_, old, before, rfl⟩ := settles
      have key := uploads (by simp [prepares])
      obtain ⟨stored, owned, place⟩ := addressed_ident key before
      obtain ⟨stored', owned', place'⟩ := addressed_ident key found
      obtain ⟨new, after, kept, _⟩ := grown.chunks _ old stored
      have same : (new.seq : Int) = chunk.seq := by
        rw [kept.seq]
        exact Option.some.inj (place.symm.trans place')
      exact other (congrArg some (consistent.shaped.seqUnique _ _ _ _ after stored'
        (kept.upload.trans (owned.trans owned'.symm)) (Int.ofNat_inj.mp same)))
  | upload sel upload row object ends selects found other =>
      rw [uploads (by rcases ends with ends | ends <;> simp [ends])] at selects
      cases selects
      have selected := (mem_uploadsBy.mp (List.mem_of_mem_head? found)).1
      exact other (congrArg some ((settles_ident (by rcases ends with ends | ends <;> simp [ends])
        uploads objects settles).trans (of_decide_eq_true selected).symm))
  | object sel oid row deletes selects found other =>
      rw [objects deletes] at selects
      cases selects
      have selected := (mem_objectsBy.mp (List.mem_of_mem_head? found)).1
      exact other (congrArg some ((settles_ident (by simp [deletes]) uploads objects settles).trans
        (of_decide_eq_true selected).symm))

end Identifiers

end Database

end FileServer.Metadata
