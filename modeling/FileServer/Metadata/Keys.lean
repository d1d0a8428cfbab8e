import FileServer.Metadata.Additions
import FileServer.Metadata.Naming

/-!
# Requests by keys of any kind as moves

In strict SQL mode a request by a number does what a command by an identifier
does, or prepares a chunk, retires an upload or reports a copy that its key
selects.
-/

namespace FileServer.Metadata

open FileServer.Relational FileServer.Transition

/-- An update that goes through reaches at most one of the rows selected. -/
theorem StrictEngine.selected_alone (e : StrictEngine) {key : Option Value} {sel : Selector}
    {ids : List Ident} (selects : e.selector key = .ok sel) (writes : e.writes key ids = true)
    {first second : Ident} (listed : first ∈ ids) (listed' : second ∈ ids)
    (selected : sel first = true) (selected' : sel second = true) : first = second := by
  have numbered : ∀ {number}, key.bind Value.number? = some number → sel = e.equals number →
      first = second := by
    rintro number named rfl
    rw [Engine.writes, named] at writes
    exact e.alone writes first listed second listed' selected selected'
  cases key with
  | none =>
      cases selects
      cases selected
  | some value =>
      cases value with
      | bool | int =>
          cases selects
          exact numbered rfl rfl
      | float value =>
          cases value with
          | none => cases selects
          | some value =>
              cases selects
              exact numbered rfl rfl
      | ident id =>
          cases selects
          exact (of_decide_eq_true selected).trans (of_decide_eq_true selected').symm
      | text value =>
          cases selects
          exact Option.some.inj
            ((of_decide_eq_true selected).symm.trans (of_decide_eq_true selected'))
      | null | digest | other =>
          cases selects
          cases selected

/-- What a request does to the tables, with the transaction that is watched. -/
inductive KeyMove (e : StrictEngine) (c : Config) (now : Time) (db : Database)
    (ident : Nat → Ident) (request : Internal) : Focus → Database → Prop where
  | same : KeyMove e c now db ident request .none db
  | command (command reply focus db')
      (dispatched : db.dispatch c now ident request.owner command = .ok (reply, db'))
      (focuses : command.Focuses db request.owner focus)
      (steps : Steps focus (command.drawn c ident) db db')
      (drawn : command.drawn c ident = request.drawn c ident)
      (other : ∀ upload seq sha, command ≠ .prepare upload seq sha)
      (creates : ∀ size name, command = .init size name →
        request.cmd = .init ∧ size = (request.fields.size.bind Value.int?).getD (-1) ∧
          name = (request.fields.name.bind Value.text?).getD "") :
      KeyMove e c now db ident request focus db'
  | prepare (sel position sha cid chunk) (prepares : request.cmd = .prepare)
      (selects : e.selector request.fields.uploadId = .ok sel)
      (sequence : request.fields.seq.bind Value.int? = some position)
      (given : request.fields.sha256.bind Value.sha? = some sha)
      (chosen : (db.chunksAtBy e.toEngine sel position).head? = some (cid, chunk))
      (free : chunk.sha = none ∨ chunk.sha = some sha) (staging : db.phase cid = some .staging) :
      KeyMove e c now db ident request (.prepare cid sha)
        { db with chunks := db.chunks.modify cid fun row => { row with sha := some sha } }
  | retire (sel upload row) (deletes : request.cmd = .delete)
      (selects : e.selector request.fields.objectId = .ok sel)
      (stored : db.uploads.get? upload = some row) (selected : sel row.object = true) :
      KeyMove e c now db ident request .none (db.retire c now upload .cancelled)
  | report (sel oid object cid nid chunk row) (reports : request.cmd = .badReplica)
      (user : (c.users.lookup request.owner).isSome)
      (selects : e.selector request.fields.objectId = .ok sel)
      (opened : Database.objectBy e.toEngine db sel request.owner = .ok (oid, object))
      (named : request.chunk = some cid) (copied : request.node = some nid)
      (stored : db.chunks.get? cid = some chunk) (owned : db.uploads.get? chunk.upload = some row)
      (selected : sel row.object = true) :
      KeyMove e c now db ident request (.report cid)
        ((db.modifyReplica cid nid fun row =>
          if row.state = .valid then { row with state := .bad } else row).enqueue now .repair cid
            none 0)

namespace Database

variable {e : StrictEngine} {c : Config} {now : Time} {db db' : Database} {sel : Selector}
  {owner : String} {key : Option Value}

structure Alone (db : Database) (sel : Selector) (upload : Ident) : Prop where
  selected : sel upload = true
  unique : ∀ id row, db.uploads.get? id = some row → sel id = true → id = upload

namespace Alone

variable {upload oid : Ident} (alone : db.Alone sel upload)
include alone

theorem eq_only {id : Ident} {row : UploadRow} (stored : db.uploads.get? id = some row) :
    sel id = only upload id := by
  unfold only
  by_cases same : id = upload
  · rw [same, alone.selected, decide_eq_true rfl]
  · rw [decide_eq_false same]
    exact Bool.eq_false_iff.mpr fun selected => same (alone.unique id row stored selected)

theorem uploadsBy : db.uploadsBy e.toEngine sel = db.uploadsBy e.toEngine (only upload) := by
  have rows : (db.uploads.rows.filter fun entry => sel entry.1) =
      db.uploads.rows.filter fun entry => only upload entry.1 :=
    List.filter_congr fun entry membership =>
      alone.eq_only (db.uploads.mem_rows_iff.mp membership)
  simp only [Database.uploadsBy, rows]

theorem chunksBy (linked : Linked db) : db.chunksBy sel = db.chunksBy (only upload) := by
  have rows : (db.chunks.rows.filter fun entry => sel entry.2.upload) =
      db.chunks.rows.filter fun entry => only upload entry.2.upload := by
    refine List.filter_congr fun entry membership => ?_
    obtain ⟨row, stored⟩ :=
      linked.chunkUpload entry.1 entry.2 (db.chunks.mem_rows_iff.mp membership)
    exact alone.eq_only stored
  simp only [Database.chunksBy, rows]

theorem publishBy : db.publishBy sel oid = db.publishBy (only upload) oid := by
  have uploads := db.uploads.mapRows_congr
    (f := fun id row => if sel id ∧ row.state = .uploading then
      ({ row with state := .completed } : UploadRow) else row)
    (g := fun id row => if only upload id ∧ row.state = .uploading then
      ({ row with state := .completed } : UploadRow) else row)
    fun id row stored => by rw [alone.eq_only stored]
  simp only [Database.publishBy, uploads]

theorem retireBy {state : UploadState} :
    Database.retireBy e.toEngine c now db sel key state =
      Database.retireBy e.toEngine c now db (only upload) key state := by
  have rows : (db.uploads.rows.filter fun entry => sel entry.1) =
      db.uploads.rows.filter fun entry => only upload entry.1 :=
    List.filter_congr fun entry membership =>
      alone.eq_only (db.uploads.mem_rows_iff.mp membership)
  simp only [Database.retireBy, rows]

end Alone

/-- The upload a request is about is the only one that its update reaches. -/
theorem alone_of_active {row : UploadRow} {object : ObjectRow}
    (selects : e.selector key = .ok sel) (active : activeBy e.toEngine db sel owner = .ok (row, object))
    (writes : e.writes key (db.uploads.rows.map Prod.fst) = true) :
    ∃ upload, db.Alone sel upload := by
  have listed : ∀ id row, db.uploads.get? id = some row → id ∈ db.uploads.rows.map Prod.fst :=
    fun id row stored => List.mem_map.mpr ⟨(id, row), db.uploads.mem_rows_iff.mpr stored, rfl⟩
  obtain ⟨upload, first, _⟩ := activeBy_ok.mp active
  obtain ⟨selected, stored, _⟩ := mem_uploadsBy.mp (List.mem_of_mem_head? first)
  exact ⟨upload, selected, fun id row stored' selected' =>
    e.selected_alone selects writes (listed _ _ stored') (listed _ _ stored) selected' selected⟩

theorem completeBy_command (linked : Linked db) (selects : e.selector key = .ok sel)
    {reply : Reply} (completed : completeBy e.toEngine now db sel owner key = .ok (reply, db')) :
    db' = db ∨ ∃ upload, complete now db owner upload = .ok (reply, db') := by
  have opened := completed
  simp only [completeBy, bind_eq_ok, Prod.exists] at opened
  obtain ⟨row, object, active, rest⟩ := opened
  split at rest
  · simp only [pure_eq_ok, Prod.mk.injEq] at rest
    exact .inl rest.2.symm
  · simp only [bind_eq_ok, require_eq_ok] at rest
    obtain ⟨_, _, _, _, _, _, _, writes, _⟩ := rest
    obtain ⟨upload, alone⟩ := alone_of_active selects active writes
    refine .inr ⟨upload, (completeBy_only writes).mp ?_⟩
    rw [← completed]
    simp only [completeBy, activeBy, alone.uploadsBy, alone.chunksBy linked, alone.publishBy]

theorem cancelBy_command (selects : e.selector key = .ok sel) {reply : Reply}
    (cancelled : cancelBy e.toEngine c now db sel owner key = .ok (reply, db')) :
    db' = db ∨ ∃ upload, cancel c now db owner upload = .ok (reply, db') := by
  have opened := cancelled
  simp only [cancelBy, bind_eq_ok, Prod.exists] at opened
  obtain ⟨row, object, active, rest⟩ := opened
  split at rest
  · simp only [pure_eq_ok, Prod.mk.injEq] at rest
    exact .inl rest.2.symm
  · simp only [bind_eq_ok, require_eq_ok, retireBy] at rest
    obtain ⟨_, _, _, ⟨_, writes, _⟩, _⟩ := rest
    obtain ⟨upload, alone⟩ := alone_of_active selects active writes
    refine .inr ⟨upload, (cancelBy_only writes).mp ?_⟩
    rw [← cancelled]
    simp only [cancelBy, activeBy, alone.uploadsBy, alone.retireBy]

theorem prepareBy_written {upload seq sha : Option Value} {response : Response}
    (prepared : prepareBy e.toEngine c now db sel owner upload seq sha = .ok (response, db')) :
    ∃ row object position cid chunk, activeBy e.toEngine db sel owner = .ok (row, object) ∧
      seq.bind Value.int? = some position ∧
      (db.chunksAtBy e.toEngine sel position).head? = some (cid, chunk) ∧
      (db.writable cid).length = object.replicas := by
  simp only [prepareBy, bind_eq_ok, require_eq_ok, found_eq_ok, pure_eq_ok, Prod.exists, positionsBy,
    mapM_guarded_eq_ok] at prepared
  obtain ⟨row, object, active, _, _, position, sequence, _, _, _, _, cid, chunk, chosen, _, _, _,
    ⟨_, rfl⟩, _, counted, _⟩ := prepared
  refine ⟨row, object, position, cid, chunk, active, sequence, chosen, ?_⟩
  rw [List.length_map] at counted
  exact counted

theorem prepareBy_phase (consistent : Consistent db) {upload seq sha : Option Value}
    {response : Response}
    (prepared : prepareBy e.toEngine c now db sel owner upload seq sha = .ok (response, db')) :
    db' = db ∨ ∃ position checksum cid chunk, seq.bind Value.int? = some position ∧
      sha.bind Value.sha? = some checksum ∧
      (db.chunksAtBy e.toEngine sel position).head? = some (cid, chunk) ∧
      (chunk.sha = none ∨ chunk.sha = some checksum) ∧ db.phase cid = some .staging ∧
      db' = { db with
        chunks := db.chunks.modify cid fun row => { row with sha := some checksum } } := by
  obtain ⟨_, object, position, cid, chunk, active, sequence, chosen, counted⟩ :=
    prepareBy_written prepared
  obtain ⟨_, checksum, _, _, _, sequence', given, chosen', free, _, rfl⟩ := prepareBy_ok prepared
  obtain rfl := Option.some.inj (sequence.symm.trans sequence')
  cases chosen.symm.trans chosen'
  have stored := chunksAtBy_stored chosen
  obtain ⟨row', owned⟩ := consistent.linked.chunkUpload cid chunk stored
  obtain ⟨object', located⟩ := consistent.linked.uploadObject _ row' owned
  have phase := phase_of_object stored owned located
  cases state : object'.state with
  | staging => exact .inr ⟨position, checksum, cid, chunk, sequence, given, chosen, free,
      state ▸ phase, rfl⟩
  | published =>
      rw [state] at phase
      have confirmed := consistent.confirmed cid chunk stored phase
      exact .inl ((fixed_eq_iff stored free).mpr
        (consistent.shaped.confirmedSha cid chunk stored confirmed))
  | deleted =>
      rw [state] at phase
      obtain ⟨_, first, _⟩ := activeBy_ok.mp active
      obtain ⟨_, _, asked⟩ := mem_uploadsBy.mp (List.mem_of_mem_head? first)
      have positive := consistent.shaped.copied _ _ asked
      obtain ⟨⟨nid, copy, node⟩, membership⟩ :=
        List.exists_mem_of_length_pos (counted ▸ positive)
      obtain ⟨present, _, _, live⟩ := mem_writable.mp membership
      rcases consistent.ended cid nid copy phase present with ended | ended <;>
        simp [ended] at live

end Database

namespace KeyMove

variable {e : StrictEngine} {c : Config} {now : Time} {db db' : Database} {ident : Nat → Ident}
  {request : Internal}

theorem of_dispatchBy (consistent : Consistent db) {response : Response}
    (dispatched : db.dispatchBy e.toEngine c now ident request = .ok (response, db')) :
    ∃ focus, KeyMove e c now db ident request focus db' := by
  have named (reply : Reply) (after : Database) (command : Command)
      (dispatched : db.dispatch c now ident request.owner command = .ok (reply, after))
      (drawn : command.drawn c ident = request.drawn c ident)
      (other : ∀ upload seq sha, command ≠ .prepare upload seq sha)
      (creates : ∀ size name, command = .init size name →
        request.cmd = .init ∧ size = (request.fields.size.bind Value.int?).getD (-1) ∧
          name = (request.fields.name.bind Value.text?).getD "") :
      ∃ focus, KeyMove e c now db ident request focus after := by
    obtain ⟨focus, focuses, steps⟩ := Database.dispatch_steps consistent dispatched
    exact ⟨focus, .command command reply focus after dispatched focuses steps drawn other creates⟩
  cases kind : request.cmd <;>
    simp only [Database.dispatchBy, kind, bind_eq_ok, require_eq_ok, pure_eq_ok, Prod.exists,
      Prod.mk.injEq, exists_const] at dispatched
  case init =>
    obtain ⟨known, reply, after, initialized, _, rfl⟩ := dispatched
    refine named reply _ (.init ((request.fields.size.bind Value.int?).getD (-1))
      ((request.fields.name.bind Value.text?).getD "")) ?_ ?_ (by simp) ?_
    · simp only [Database.dispatch, bind_eq_ok, require_eq_ok]
      exact ⟨⟨⟩, known, initialized⟩
    · simp only [Internal.drawn, kind]
    · rintro _ _ ⟨⟩
      exact ⟨kind, rfl, rfl⟩
  case status | manifest | locations =>
    obtain ⟨_, _, _, _, _, _, rfl⟩ := dispatched
    exact ⟨.none, .same⟩
  case heartbeat | confirm | upload | download | other => simp at dispatched
  case prepare =>
    obtain ⟨_, sel, selects, prepared⟩ := dispatched
    rcases Database.prepareBy_phase consistent prepared with
      rfl | ⟨position, sha, cid, chunk, sequence, given, chosen, free, staging, rfl⟩
    · exact ⟨.none, .same⟩
    · exact ⟨_, .prepare sel position sha cid chunk kind selects sequence given chosen free staging⟩
  case complete =>
    obtain ⟨known, sel, selects, reply, after, completed, _, rfl⟩ := dispatched
    rcases Database.completeBy_command consistent.linked selects completed with
      rfl | ⟨upload, completed⟩
    · exact ⟨.none, .same⟩
    · refine named reply _ (.complete upload) ?_ ?_ (by simp) (by simp)
      · simp only [Database.dispatch, bind_eq_ok, require_eq_ok]
        exact ⟨⟨⟩, known, completed⟩
      · simp only [Internal.drawn, kind, Command.drawn]
  case cancel =>
    obtain ⟨known, sel, selects, reply, after, cancelled, _, rfl⟩ := dispatched
    rcases Database.cancelBy_command selects cancelled with rfl | ⟨upload, cancelled⟩
    · exact ⟨.none, .same⟩
    · refine named reply _ (.cancel upload) ?_ ?_ (by simp) (by simp)
      · simp only [Database.dispatch, bind_eq_ok, require_eq_ok]
        exact ⟨⟨⟩, known, cancelled⟩
      · simp only [Internal.drawn, kind, Command.drawn]
  case delete =>
    obtain ⟨_, sel, selects, reply, after, deleted, _, rfl⟩ := dispatched
    rcases Database.deleteBy_changes deleted with rfl | ⟨upload, row, stored, selected, rfl⟩
    · exact ⟨.none, .same⟩
    · exact ⟨.none, .retire sel upload row kind selects stored selected⟩
  case badReplica =>
    obtain ⟨user, sel, selects, reply, after, marked, _, rfl⟩ := dispatched
    simp only [Database.badReplicaBy, bind_eq_ok, found_eq_ok, require_eq_ok, pure_eq_ok,
      Prod.mk.injEq, exists_const] at marked
    obtain ⟨⟨oid, object⟩, opened, cid, named, nid, copied,
      ⟨chunk, stored, row, owned, selected⟩, _, rfl⟩ := marked
    exact ⟨_, .report sel oid object cid nid chunk row kind user selects opened named copied stored
      owned selected⟩

theorem quiet {focus : Focus} (move : KeyMove e c now db ident request focus db') (file : Ident) :
    focus ≠ .review file := by
  cases move with
  | command command reply focus db' dispatched focuses => rintro rfl; cases focuses
  | same | prepare | retire | report => simp

theorem steps {focus : Focus} (move : KeyMove e c now db ident request focus db')
    (consistent : Consistent db) : Steps focus (request.drawn c ident) db db' := by
  cases move with
  | same => exact .refl
  | command command reply focus db' dispatched focuses steps drawn other => exact drawn ▸ steps
  | prepare sel position sha cid chunk prepares selects sequence given chosen free staging =>
      exact .single (Moves.ofChunk _ (fun _ => rfl) (fun _ => rfl)
        (.fixSha cid chunk sha rfl (Database.chunksAtBy_stored chosen) staging free rfl rfl rfl))
  | retire sel upload row deletes selects stored selected =>
      exact .single (Database.retire_moves consistent stored (.inl rfl))
  | report sel oid object cid nid chunk row reports user selects opened named copied stored owned =>
      obtain ⟨object, located⟩ := consistent.linked.uploadObject _ row owned
      refine (Relation.ReflTransGen.single (Moves.ofMark _ (fun row => by split <;> rfl)
        fun row present => ?_)).tail (Moves.enqueue (.inl ?_) fun _ => ⟨rfl, .inr rfl⟩)
      · by_cases valid : row.state = .valid
        · rw [if_pos valid]
          exact .mark row valid
        · rw [if_neg valid]
          exact .keep _
      · exact ne_of_eq_of_ne (Database.phase_of_object stored owned located) (by simp)

end KeyMove

end FileServer.Metadata
