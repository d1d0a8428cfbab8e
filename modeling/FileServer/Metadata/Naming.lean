import FileServer.Metadata.Ownership

/-!
# Commands named by identifiers

A request whose key is an identifier selects one row, and the command runs as
`dispatch` does.
-/

namespace FileServer.Metadata

open FileServer.Relational FileServer.Transition

/-- The ticket that names its upload as a request does. -/
def Position.assigned (position : Position) : Assigned :=
  let claims := position.authorization
  ⟨position.node, position.address, ⟨some (.ident claims.upload), claims.chunk, claims.length,
    claims.sha, claims.node, claims.volume, claims.inst, claims.expires⟩⟩

def Reply.response : Reply → Response
  | .prepared chunk length sha positions =>
      .prepared chunk length sha (positions.map Position.assigned)
  | reply => .reply reply

def Internal.command? (request : Internal) : Option Command :=
  let upload := request.fields.uploadId.bind Value.ident?
  let object := request.fields.objectId.bind Value.ident?
  let seq := (request.fields.seq.bind Value.int?).getD (-1)
  match request.cmd with
  | .init => some (.init ((request.fields.size.bind Value.int?).getD (-1))
      ((request.fields.name.bind Value.text?).getD ""))
  | .status => upload.map fun upload =>
      .status upload (((request.fields.cursor.getD (.int 0)).int?).getD (-1))
  | .prepare => upload.map fun upload =>
      .prepare upload seq (request.fields.sha256.bind Value.sha?)
  | .complete => upload.map .complete
  | .cancel => upload.map .cancel
  | .manifest => object.map .manifest
  | .locations => object.map fun object => .locations object seq
  | .delete => object.map .delete
  | .badReplica => object.bind fun object => request.chunk.bind fun chunk =>
      request.node.map fun node => .badReplica object chunk node
  | _ => none

theorem Engine.order_of_one (e : Engine) {ids : List Ident} (distinct : ids.Nodup)
    (same : ∀ first ∈ ids, ∀ second ∈ ids, first = second) : e.order ids = ids := by
  cases ids with
  | nil => exact (e.order_perm []).eq_nil
  | cons first rest =>
      cases rest with
      | nil => exact (e.order_perm [first]).eq_singleton
      | cons second rest =>
          obtain rfl := same first (by simp) second (by simp)
          simp at distinct

def only (id : Ident) : Selector := fun other => other = id

namespace Database

variable {e : Engine} {c : Config} {now : Time} {db db' : Database} {owner : String} {upload oid : Ident}

theorem head_uploadsBy_only {id : Ident} {row : UploadRow} {object : ObjectRow} :
    (db.uploadsBy e (only upload)).head? = some (id, row, object) ↔
      id = upload ∧ db.uploads.get? upload = some row ∧
        db.objects.get? row.object = some object := by
  unfold uploadsBy only
  rw [Table.filter_key, Engine.order_of_one]
  · cases stored : db.uploads.get? upload with
    | none => simp
    | some row' =>
        cases located : db.objects.get? row'.object with
        | none =>
            simp only [Option.map_some, Option.toList_some, List.map_cons, List.map_nil,
              List.filterMap_cons, stored, Option.bind_some, located, Option.map_none,
              List.filterMap_nil, List.head?_nil, reduceCtorEq, false_iff]
            rintro ⟨_, same, found⟩
            rw [← Option.some.inj same, located] at found
            cases found
        | some object' =>
            simp only [Option.map_some, Option.toList_some, List.map_cons, List.map_nil,
              List.filterMap_cons, stored, Option.bind_some, located, List.filterMap_nil,
              List.head?_cons, Option.some.injEq, Prod.mk.injEq]
            constructor
            · rintro ⟨rfl, rfl, rfl⟩
              exact ⟨rfl, rfl, located⟩
            · rintro ⟨rfl, rfl, found⟩
              exact ⟨rfl, rfl, Option.some.inj (located.symm.trans found)⟩
  · cases db.uploads.get? upload <;> simp
  · cases db.uploads.get? upload <;> simp

theorem head_objectsBy_only {id : Ident} {row : ObjectRow} :
    (db.objectsBy e (only oid)).head? = some (id, row) ↔
      id = oid ∧ db.objects.get? oid = some row := by
  unfold objectsBy only
  rw [Table.filter_key, Engine.order_of_one]
  · cases located : db.objects.get? oid <;> simp [located, eq_comm]
  · cases db.objects.get? oid <;> simp
  · cases db.objects.get? oid <;> simp

theorem activeBy_only (now : Time) {row : UploadRow} {object : ObjectRow} :
    activeBy e db (only upload) owner = .ok (row, object) ↔
      active now db upload (some owner) false = .ok (row, object) := by
  simp only [activeBy_ok, active_ok, head_uploadsBy_only]
  constructor
  · rintro ⟨_, ⟨_, stored, located⟩, rfl⟩
    exact ⟨stored, located, .inr rfl, by simp, by simp⟩
  · rintro ⟨stored, located, owned, _⟩
    exact ⟨upload, ⟨rfl, stored, located⟩, by simpa [eq_comm] using owned⟩

theorem objectBy_only {id : Ident} {row : ObjectRow} :
    objectBy e db (only oid) owner = .ok (id, row) ↔
      id = oid ∧ object db oid owner = .ok row := by
  simp only [objectBy_ok, object_ok, head_objectsBy_only, and_assoc]

theorem chunksBy_only : db.chunksBy (only upload) = db.chunksOf upload := by
  simp [chunksBy, chunksOf, only]

theorem head_chunksAtBy_only (shaped : Shaped db) {seq : Int} :
    (db.chunksAtBy e (only upload) seq).head? = db.chunkAt upload seq := by
  let rows := db.chunks.rows.filter fun entry =>
    only upload entry.2.upload ∧ (entry.2.seq : Int) = seq
  have stored : ∀ entry ∈ rows, db.chunks.get? entry.1 = some entry.2 ∧
      entry.2.upload = upload ∧ (entry.2.seq : Int) = seq := by
    intro entry membership
    obtain ⟨inRows, matched⟩ := List.mem_filter.mp membership
    exact ⟨db.chunks.mem_rows_iff.mp inRows, by simpa [only] using matched⟩
  have chosen : db.chunkAt upload seq = rows.head? := by
    rw [List.head?_filter]
    simp [chunkAt, only]
  have distinct : (rows.map Prod.fst).Nodup :=
    db.chunks.keysNodup.sublist (List.filter_sublist.map _)
  have single : ∀ first ∈ rows.map Prod.fst, ∀ second ∈ rows.map Prod.fst, first = second := by
    intro first inRows second inRows'
    obtain ⟨entry, membership, rfl⟩ := List.mem_map.mp inRows
    obtain ⟨entry', membership', rfl⟩ := List.mem_map.mp inRows'
    obtain ⟨present, owned, placed⟩ := stored entry membership
    obtain ⟨present', owned', placed'⟩ := stored entry' membership'
    exact shaped.seqUnique _ _ _ _ present present' (owned.trans owned'.symm)
      (Int.ofNat.inj (placed.trans placed'.symm))
  show ((e.order (rows.map Prod.fst)).filterMap _).head? = _
  rw [chosen, e.order_of_one distinct single, List.filterMap_map, List.filterMap_congr (g := some)]
  · rw [List.filterMap_some]
  · intro entry membership
    simp [(stored entry membership).1]

theorem positionsBy_only {cid : Ident} {length : Nat} {sha : Sha} {located : List Assigned} :
    positionsBy c now db cid (some (.ident upload)) length sha = .ok located ↔
      ∃ positions, Database.positions c now db cid upload length sha = .ok positions ∧
        located = positions.map Position.assigned := by
  unfold positionsBy Database.positions
  simp only [mapM_guarded_eq_ok]
  constructor
  · rintro ⟨alive, rfl⟩
    exact ⟨_, ⟨alive, rfl⟩, by simp [Position.assigned, Function.comp_def]⟩
  · rintro ⟨_, ⟨alive, rfl⟩, rfl⟩
    exact ⟨alive, by simp [Position.assigned, Function.comp_def]⟩

theorem publishBy_only : db.publishBy (only upload) oid = db.publish upload oid := by
  have rows : (fun id row => if only upload id ∧ row.state = .uploading then
        ({ row with state := .completed } : UploadRow) else row) =
      fun id row => if id = upload then
        if row.state = .uploading then { row with state := .completed } else row else row := by
    funext id row
    simp [only, ite_and]
  simp only [publishBy, publish, rows, Table.modify]

theorem getD_neg_nonneg {number : Option Int} :
    0 ≤ number.getD (-1) ↔ ∃ value, number = some value ∧ 0 ≤ value := by
  cases number <;> simp

theorem statusBy_only (now : Time) {cursor : Option Value} {reply : Reply} :
    statusBy e db (only upload) owner cursor = .ok reply ↔
      status now db owner upload (((cursor.getD (.int 0)).int?).getD (-1)) = .ok reply := by
  simp only [statusBy, status, bind_eq_ok, found_eq_ok, require_eq_ok, pure_eq_ok, chunksBy_only,
    Prod.exists, activeBy_only now, exists_const, confirmedBytes]
  constructor
  · rintro ⟨row, object, opened, position, given, nonneg, rfl⟩
    exact ⟨row, object, opened, by rw [given]; exact nonneg, by rw [given]; rfl⟩
  · rintro ⟨row, object, opened, nonneg, rfl⟩
    obtain ⟨position, given, nonneg⟩ := getD_neg_nonneg.mp nonneg
    exact ⟨row, object, opened, position, given, nonneg, by rw [given]; rfl⟩

theorem prepareBy_only (shaped : Shaped db) {seq sha : Option Value} {response : Response} :
    prepareBy e c now db (only upload) owner (some (.ident upload)) seq sha = .ok (response, db') ↔
      ∃ reply, prepare c now db owner upload ((seq.bind Value.int?).getD (-1))
        (sha.bind Value.sha?) = .ok (reply, db') ∧ response = reply.response := by
  simp only [prepareBy, prepare, bind_eq_ok, found_eq_ok, require_eq_ok, pure_eq_ok,
    Prod.exists, activeBy_only now, exists_const, head_chunksAtBy_only shaped,
    positionsBy_only, Prod.mk.injEq]
  constructor
  · rintro ⟨row, object, opened, active, position, given, nonneg, checksum, named, cid, chunk,
      chosen, free, _, ⟨positions, located, rfl⟩, counted, rfl, rfl⟩
    rw [given, Option.getD_some]
    refine ⟨_, ⟨row, object, opened, active, nonneg, checksum, named, cid, chunk, chosen, free,
      positions, located, by simpa using counted, rfl, rfl⟩, rfl⟩
  · rintro ⟨_, ⟨row, object, opened, active, nonneg, checksum, named, cid, chunk, chosen, free,
      positions, located, counted, rfl, rfl⟩, rfl⟩
    obtain ⟨position, given, nonneg⟩ := getD_neg_nonneg.mp nonneg
    rw [given, Option.getD_some] at chosen
    exact ⟨row, object, opened, active, position, given, nonneg, checksum, named, cid, chunk,
      chosen, free, _, ⟨positions, located, rfl⟩, by simpa using counted, rfl, rfl⟩

theorem writes_ident {ids : List Ident} : e.writes (some (.ident upload)) ids = true := rfl

theorem completeBy_only {key : Option Value} {reply : Reply}
    (writes : e.writes key (db.uploads.rows.map Prod.fst) = true) :
    completeBy e now db (only upload) owner key = .ok (reply, db') ↔
      complete now db owner upload = .ok (reply, db') := by
  have permitted (failure : Error) :
      require (e.writes key (db.uploads.rows.map Prod.fst) = true) failure = .ok () :=
    require_eq_ok.mpr writes
  simp only [completeBy, complete, bind_eq_ok, Prod.exists, activeBy_only now,
    chunksBy_only, publishBy_only, permitted]
  rfl

theorem retireBy_only {key : Option Value} {state : UploadState} {row : UploadRow}
    (writes : e.writes key (db.uploads.rows.map Prod.fst) = true)
    (stored : db.uploads.get? upload = some row) :
    retireBy e c now db (only upload) key state = .ok (retire c now db upload state) := by
  have single : (db.uploads.rows.filter fun entry => only upload entry.1).map Prod.fst =
      [upload] := by
    unfold only
    rw [Table.filter_key, stored]
    rfl
  have permitted (failure : Error) :
      require (e.writes key (db.uploads.rows.map Prod.fst) = true) failure = .ok () :=
    require_eq_ok.mpr writes
  simp only [retireBy, permitted, single]
  rfl

theorem cancelBy_only {key : Option Value} {reply : Reply}
    (writes : e.writes key (db.uploads.rows.map Prod.fst) = true) :
    cancelBy e c now db (only upload) owner key = .ok (reply, db') ↔
      cancel c now db owner upload = .ok (reply, db') := by
  simp only [cancelBy, cancel, bind_eq_ok, Prod.exists, activeBy_only now]
  refine exists_congr fun row => exists_congr fun object => and_congr_right fun opened => ?_
  obtain ⟨stored, _⟩ := active_ok.mp opened
  rw [retireBy_only writes stored]
  rfl

theorem uploadOfBy_only (linked : Linked db) : db.uploadOfBy e (only oid) = db.uploadOf oid := by
  let rows := db.uploads.rows.filter fun entry => only oid entry.2.object
  have stored : ∀ entry ∈ rows, db.uploads.get? entry.1 = some entry.2 ∧ entry.2.object = oid := by
    intro entry membership
    obtain ⟨inRows, matched⟩ := List.mem_filter.mp membership
    exact ⟨db.uploads.mem_rows_iff.mp inRows, by simpa [only] using matched⟩
  have distinct : (rows.map Prod.fst).Nodup :=
    db.uploads.keysNodup.sublist (List.filter_sublist.map _)
  have single : ∀ first ∈ rows.map Prod.fst, ∀ second ∈ rows.map Prod.fst, first = second := by
    intro first inRows second inRows'
    obtain ⟨entry, membership, rfl⟩ := List.mem_map.mp inRows
    obtain ⟨entry', membership', rfl⟩ := List.mem_map.mp inRows'
    obtain ⟨present, owned⟩ := stored entry membership
    obtain ⟨present', owned'⟩ := stored entry' membership'
    exact linked.uploadUnique _ _ _ _ present present' (owned.trans owned'.symm)
  show (e.order (rows.map Prod.fst)).head? = _
  rw [e.order_of_one distinct single, List.head?_map, List.head?_filter]
  simp [uploadOf, only]

theorem deleteBy_only (linked : Linked db) {reply : Reply} :
    deleteBy e c now db (only oid) owner = .ok (reply, db') ↔
      delete c now db owner oid = .ok (reply, db') := by
  simp only [deleteBy, delete, bind_eq_ok, found_eq_ok, Prod.exists, head_objectsBy_only,
    uploadOfBy_only linked]
  constructor
  · rintro ⟨_, row, ⟨rfl, located⟩, rest⟩
    exact ⟨row, located, rest⟩
  · rintro ⟨row, located, rest⟩
    exact ⟨oid, row, ⟨rfl, located⟩, rest⟩

theorem manifestBy_only {reply : Reply} :
    manifestBy e db (only oid) owner = .ok reply ↔ manifest db owner oid = .ok reply := by
  simp only [manifestBy, bind_eq_ok, Prod.exists, objectBy_only]
  constructor
  · rintro ⟨_, row, ⟨rfl, opened⟩, answered⟩
    exact answered
  · intro answered
    have opened := answered
    simp only [manifest, bind_eq_ok] at opened
    obtain ⟨row, opened, _⟩ := opened
    exact ⟨oid, row, ⟨rfl, opened⟩, answered⟩

theorem locationsBy_only {seq : Option Value} {reply : Reply} :
    locationsBy e c now db (only oid) owner seq = .ok reply ↔
      locations c now db owner oid ((seq.bind Value.int?).getD (-1)) = .ok reply := by
  simp only [locationsBy, bind_eq_ok, Prod.exists, objectBy_only]
  constructor
  · rintro ⟨_, row, ⟨rfl, opened⟩, answered⟩
    exact answered
  · intro answered
    have opened := answered
    simp only [locations, bind_eq_ok] at opened
    obtain ⟨row, opened, _⟩ := opened
    exact ⟨oid, row, ⟨rfl, opened⟩, answered⟩

theorem badReplicaBy_only {cid : Ident} {nid : NodeId} {reply : Reply} :
    badReplicaBy e now db (only oid) owner (some cid) (some nid) = .ok (reply, db') ↔
      badReplica now db owner oid cid nid = .ok (reply, db') := by
  simp only [badReplicaBy, badReplica, bind_eq_ok, found_eq_ok, Prod.exists, objectBy_only,
    Option.some.injEq, exists_eq_left', only, decide_eq_true_eq]
  constructor
  · rintro ⟨_, row, ⟨rfl, opened⟩, rest⟩
    exact ⟨row, opened, rest⟩
  · rintro ⟨row, opened, rest⟩
    exact ⟨oid, row, ⟨rfl, opened⟩, rest⟩

theorem bind_ident? {value : Option Value} {id : Ident} :
    value.bind Value.ident? = some id ↔ value = some (.ident id) := by
  cases value with
  | none => simp
  | some value => cases value <;> simp [Value.ident?]

theorem selector_ident (id : Ident) : e.selector (some (.ident id)) = .ok (only id) := rfl

theorem dispatch_response {ident : Nat → Ident} {command : Command} {reply : Reply}
    (dispatched : db.dispatch c now ident owner command = .ok (reply, db'))
    (other : ∀ upload seq sha, command ≠ .prepare upload seq sha) : reply.response = .reply reply := by
  cases command <;>
    simp only [dispatch, init, status, complete, cancel, manifest, locations, delete, badReplica,
      bind_eq_ok, pure_eq_ok, Prod.mk.injEq] at dispatched
  case prepare => exact absurd rfl (other _ _ _)
  case init =>
    obtain ⟨_, _, _, _, _, _, _, _, _, _, _, _, rfl, _⟩ := dispatched
    rfl
  case status =>
    obtain ⟨_, _, _, ⟨_, _, _, _, rfl⟩, rfl, _⟩ := dispatched
    rfl
  case complete =>
    obtain ⟨_, _, _, _, dispatched⟩ := dispatched
    split at dispatched
    · simp only [pure_eq_ok, Prod.mk.injEq] at dispatched
      obtain ⟨rfl, _⟩ := dispatched
      rfl
    · simp only [bind_eq_ok, pure_eq_ok, Prod.mk.injEq] at dispatched
      obtain ⟨_, _, _, _, _, _, rfl, _⟩ := dispatched
      rfl
  case cancel =>
    obtain ⟨_, _, _, _, dispatched⟩ := dispatched
    split at dispatched
    · simp only [pure_eq_ok, Prod.mk.injEq] at dispatched
      obtain ⟨rfl, _⟩ := dispatched
      rfl
    · simp only [bind_eq_ok, pure_eq_ok, Prod.mk.injEq] at dispatched
      obtain ⟨_, _, rfl, _⟩ := dispatched
      rfl
  case manifest =>
    obtain ⟨_, _, _, ⟨_, _, _, _, rfl⟩, rfl, _⟩ := dispatched
    rfl
  case locations =>
    obtain ⟨_, _, _, ⟨_, _, _, _, _, _, _, _, rfl⟩, rfl, _⟩ := dispatched
    rfl
  case delete =>
    obtain ⟨_, _, _, _, _, _, dispatched⟩ := dispatched
    split at dispatched
    · simp only [pure_eq_ok, Prod.mk.injEq] at dispatched
      obtain ⟨rfl, _⟩ := dispatched
      rfl
    · simp only [bind_eq_ok, pure_eq_ok, Prod.mk.injEq] at dispatched
      obtain ⟨_, _, rfl, _⟩ := dispatched
      rfl
  case badReplica =>
    obtain ⟨_, _, _, _, _, _, rfl, _⟩ := dispatched
    rfl

theorem dispatchBy_ok_iff (consistent : Consistent db) {ident : Nat → Ident} {request : Internal}
    {command : Command} (named : request.command? = some command) {response : Response} :
    db.dispatchBy e c now ident request = .ok (response, db') ↔
      ∃ reply, db.dispatch c now ident request.owner command = .ok (reply, db') ∧
        response = reply.response := by
  have plain : (∀ upload seq sha, command ≠ .prepare upload seq sha) →
      (db.dispatchBy e c now ident request = .ok (response, db') ↔
        ∃ reply, db.dispatch c now ident request.owner command = .ok (reply, db') ∧
          response = .reply reply) →
      (db.dispatchBy e c now ident request = .ok (response, db') ↔
        ∃ reply, db.dispatch c now ident request.owner command = .ok (reply, db') ∧
          response = reply.response) := by
    intro other same
    rw [same]
    refine exists_congr fun reply => and_congr_right fun dispatched => ?_
    rw [dispatch_response dispatched other]
  cases kind : request.cmd <;>
    simp only [Internal.command?, kind, Option.map_eq_some_iff, bind_ident?, reduceCtorEq] at named
  case init =>
    obtain rfl := Option.some.inj named
    refine plain (by simp) ?_
    simp only [dispatchBy, dispatch, kind, bind_eq_ok, pure_eq_ok, Prod.exists, Prod.mk.injEq]
    constructor
    · rintro ⟨_, known, reply, after, initialized, rfl, rfl⟩
      exact ⟨reply, ⟨_, known, initialized⟩, rfl⟩
    · rintro ⟨reply, ⟨_, known, initialized⟩, rfl⟩
      exact ⟨_, known, reply, _, initialized, rfl, rfl⟩
  case prepare =>
    obtain ⟨upload, key, rfl⟩ := named
    simp only [dispatchBy, dispatch, kind, key, selector_ident, bind_eq_ok,
      Except.ok.injEq, exists_eq_left', prepareBy_only consistent.shaped]
    constructor
    · rintro ⟨_, known, reply, prepared, rfl⟩
      exact ⟨reply, ⟨_, known, prepared⟩, rfl⟩
    · rintro ⟨reply, ⟨_, known, prepared⟩, rfl⟩
      exact ⟨_, known, reply, prepared, rfl⟩
  case status | manifest | locations =>
    obtain ⟨id, key, rfl⟩ := named
    refine plain (by simp) ?_
    simp only [dispatchBy, dispatch, kind, key, selector_ident, bind_eq_ok, pure_eq_ok,
      Except.ok.injEq, exists_eq_left', Prod.mk.injEq, statusBy_only now, manifestBy_only,
      locationsBy_only]
    constructor
    · rintro ⟨_, known, reply, answered, rfl, rfl⟩
      exact ⟨reply, ⟨_, known, reply, answered, rfl, rfl⟩, rfl⟩
    · rintro ⟨_, ⟨_, known, reply, answered, rfl, rfl⟩, rfl⟩
      exact ⟨_, known, reply, answered, rfl, rfl⟩
  case complete | cancel | delete =>
    obtain ⟨id, key, rfl⟩ := named
    refine plain (by simp) ?_
    simp only [dispatchBy, dispatch, kind, key, selector_ident, bind_eq_ok, pure_eq_ok,
      Except.ok.injEq, exists_eq_left', Prod.exists, Prod.mk.injEq, completeBy_only writes_ident,
      cancelBy_only writes_ident,
      deleteBy_only consistent.linked]
    constructor
    · rintro ⟨_, known, reply, after, done, rfl, rfl⟩
      exact ⟨reply, ⟨_, known, done⟩, rfl⟩
    · rintro ⟨reply, ⟨_, known, done⟩, rfl⟩
      exact ⟨_, known, reply, _, done, rfl, rfl⟩
  case badReplica =>
    obtain ⟨oid, key, named⟩ := Option.bind_eq_some_iff.mp named
    obtain ⟨cid, chunk, named⟩ := Option.bind_eq_some_iff.mp named
    obtain ⟨nid, node, rfl⟩ := Option.map_eq_some_iff.mp named
    refine plain (by simp) ?_
    simp only [dispatchBy, dispatch, kind, bind_ident?.mp key, chunk, node, selector_ident,
      bind_eq_ok, pure_eq_ok, Except.ok.injEq, exists_eq_left', Prod.exists, Prod.mk.injEq,
      badReplicaBy_only]
    constructor
    · rintro ⟨_, known, reply, after, marked, rfl, rfl⟩
      exact ⟨reply, ⟨_, known, marked⟩, rfl⟩
    · rintro ⟨reply, ⟨_, known, marked⟩, rfl⟩
      exact ⟨_, known, reply, _, marked, rfl, rfl⟩

end Database

end FileServer.Metadata
