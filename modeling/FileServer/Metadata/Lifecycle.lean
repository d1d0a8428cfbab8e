import FileServer.Metadata.Moves

/-!
# Objects, uploads and chunks

The references between the three tables, the admitted pairs of upload and
object states and the shape of an object's chunk rows are invariants of the
moves; the phase of a chunk advances with its object.
-/

namespace FileServer.Metadata

open FileServer.Relational

inductive Paired : UploadState → ObjectState → Prop where
  | uploading : Paired .uploading .staging
  | completed : Paired .completed .published
  | cancelled : Paired .cancelled .deleted
  | expired : Paired .expired .deleted

theorem Paired.uploading_iff {upload : UploadState} {object : ObjectState}
    (paired : Paired upload object) : upload = .uploading ↔ object = .staging := by
  cases paired <;> simp

theorem Paired.completed_iff {upload : UploadState} {object : ObjectState}
    (paired : Paired upload object) : upload = .completed ↔ object = .published := by
  cases paired <;> simp

/-- `Advances s t`: an object in state `s` may later be in state `t`. -/
inductive Advances : ObjectState → ObjectState → Prop where
  | refl (state) : Advances state state
  | publish : Advances .staging .published
  | delete (state) : Advances state .deleted

theorem Advances.trans {first second third : ObjectState} (earlier : Advances first second)
    (later : Advances second third) : Advances first third := by
  cases earlier with
  | refl => exact later
  | publish => cases later with
    | refl => exact .publish
    | delete => exact .delete _
  | delete => cases later with
    | refl => exact .delete _
    | delete => exact .delete _

theorem Advances.deleted {state : ObjectState} (advances : Advances .deleted state) :
    state = .deleted := by
  cases advances <;> rfl

/-- The tables refer to each other as the foreign and unique keys say. -/
structure Linked (db : Database) : Prop where
  chunkUpload : ∀ cid chunk, db.chunks.get? cid = some chunk →
    ∃ row, db.uploads.get? chunk.upload = some row
  uploadObject : ∀ upload row, db.uploads.get? upload = some row →
    ∃ object, db.objects.get? row.object = some object
  objectUpload : ∀ oid object, db.objects.get? oid = some object →
    ∃ upload row, db.uploads.get? upload = some row ∧ row.object = oid
  uploadUnique : ∀ first second row row', db.uploads.get? first = some row →
    db.uploads.get? second = some row' → row.object = row'.object → first = second
  paired : ∀ upload row object, db.uploads.get? upload = some row →
    db.objects.get? row.object = some object → Paired row.state object.state

/-- The chunk rows of every upload are those of its object's size. -/
structure Shaped (db : Database) : Prop where
  sized : ∀ oid object, db.objects.get? oid = some object → 0 < object.chunkSize
  copied : ∀ oid object, db.objects.get? oid = some object → 0 < object.replicas
  numbered : ∀ upload row object, db.uploads.get? upload = some row →
    db.objects.get? row.object = some object →
    ∀ seq < chunkCount object.size object.chunkSize,
      ∃ cid chunk, db.chunks.get? cid = some chunk ∧ chunk.upload = upload ∧ chunk.seq = seq
  bounded : ∀ cid chunk row object, db.chunks.get? cid = some chunk →
    db.uploads.get? chunk.upload = some row → db.objects.get? row.object = some object →
    chunk.seq < chunkCount object.size object.chunkSize ∧
      chunk.length = min object.chunkSize (object.size - chunk.seq * object.chunkSize)
  seqUnique : ∀ first second chunk chunk', db.chunks.get? first = some chunk →
    db.chunks.get? second = some chunk' → chunk.upload = chunk'.upload →
    chunk.seq = chunk'.seq → first = second
  confirmedSha : ∀ cid chunk, db.chunks.get? cid = some chunk → chunk.state = .confirmed →
    chunk.sha ≠ none

namespace Database

theorem phase_eq_some {db : Database} {cid : Ident} {state : ObjectState} :
    db.phase cid = some state ↔ ∃ chunk row object, db.chunks.get? cid = some chunk ∧
      db.uploads.get? chunk.upload = some row ∧ db.objects.get? row.object = some object ∧
      object.state = state := by
  simp only [phase, Option.map_eq_some_iff, Prod.exists, chunkObject_eq_some]
  constructor
  · rintro ⟨chunk, row, _, object, ⟨stored, owned, rfl, located⟩, rfl⟩
    exact ⟨chunk, row, object, stored, owned, located, rfl⟩
  · rintro ⟨chunk, row, object, stored, owned, located, rfl⟩
    exact ⟨chunk, row, _, object, ⟨stored, owned, rfl, located⟩, rfl⟩

theorem phase_of_object {db : Database} {cid : Ident} {chunk : ChunkRow} {row : UploadRow}
    {object : ObjectRow} (stored : db.chunks.get? cid = some chunk)
    (owned : db.uploads.get? chunk.upload = some row)
    (located : db.objects.get? row.object = some object) : db.phase cid = some object.state :=
  phase_eq_some.mpr ⟨chunk, row, object, stored, owned, located, rfl⟩

theorem phase_eq_none {db : Database} (linked : Linked db) {cid : Ident} :
    db.phase cid = none ↔ db.chunks.get? cid = none := by
  constructor
  · intro absent
    cases stored : db.chunks.get? cid with
    | none => rfl
    | some chunk =>
        obtain ⟨row, owned⟩ := linked.chunkUpload cid chunk stored
        obtain ⟨object, located⟩ := linked.uploadObject _ row owned
        rw [phase_of_object stored owned located] at absent
        cases absent
  · intro absent
    simp [phase, chunkObject, absent]

end Database

/-- How the phase of a chunk changes in one move. -/
inductive PhaseMove (focus : Focus) (db db' : Database) (cid : Ident) : Prop where
  | keep (same : db'.phase cid = db.phase cid)
  | publish (owner : ∃ upload, focus = .publish upload)
      (before : db.phase cid = some .staging) (after : db'.phase cid = some .published)
      (rows : db'.replicas = db.replicas)
      (required : Nat) (ready : required ≤
        ((db.replicasOf cid).filter fun entry => entry.2.state = .valid).length)
      (owner : ∃ chunk row object, db.chunks.get? cid = some chunk ∧
        db.uploads.get? chunk.upload = some row ∧ db.objects.get? row.object = some object ∧
        object.replicas = required ∧ chunk.state = .confirmed)
  | delete (before : db.phase cid ≠ none) (after : db'.phase cid = some .deleted)
  | create (before : db.phase cid = none) (after : db'.phase cid = some .staging)
      (absent : db.chunks.get? cid = none)

section LifeMoves

variable {focus : Focus} {drawn : List Ident} {db db' : Database}

theorem phase_congr (objects : db'.objects = db.objects) (uploads : db'.uploads = db.uploads)
    {cid : Ident} (chunks : (db'.chunks.get? cid).map ChunkRow.upload =
      (db.chunks.get? cid).map ChunkRow.upload) : db'.phase cid = db.phase cid := by
  unfold Database.phase Database.chunkObject
  rw [objects, uploads]
  cases before : db.chunks.get? cid with
  | none =>
      have after : db'.chunks.get? cid = none := by simpa [before] using chunks
      simp [after]
  | some chunk =>
      obtain ⟨chunk', after, upload⟩ : ∃ chunk', db'.chunks.get? cid = some chunk' ∧
          chunk'.upload = chunk.upload := by simpa [before] using chunks
      simp only [after, Option.bind_some, upload]
      cases db.uploads.get? chunk.upload with
      | none => rfl
      | some row => cases objectRow : db.objects.get? row.object <;> simp [objectRow]

theorem phase_of_other (linked : Linked db) {upload : Ident} {row : UploadRow}
    (stored : db.uploads.get? upload = some row) {f : ObjectRow → ObjectRow}
    {g : UploadRow → UploadRow} (objects : db'.objects = db.objects.modify row.object f)
    (uploads : db'.uploads = db.uploads.modify upload g) (chunks : db'.chunks = db.chunks)
    {cid : Ident} {chunk : ChunkRow} (located : db.chunks.get? cid = some chunk)
    (other : chunk.upload ≠ upload) : db'.phase cid = db.phase cid := by
  obtain ⟨row', owned⟩ := linked.chunkUpload cid chunk located
  obtain ⟨object, found⟩ := linked.uploadObject _ row' owned
  have otherObject : row'.object ≠ row.object := fun equality =>
    other (linked.uploadUnique _ _ _ _ owned stored equality)
  rw [Database.phase_of_object located owned found]
  refine Database.phase_eq_some.mpr
    ⟨chunk, row', object, by rw [chunks, located], ?_, ?_, rfl⟩
  · rw [uploads, Table.get?_modify_of_ne _ _ other, owned]
  · rw [objects, Table.get?_modify_of_ne _ _ otherObject, found]

theorem Creation.phase {oid upload : Ident} {object : ObjectRow} {row : UploadRow}
    {ids : Nat → Ident} (creation : Creation drawn db db' oid upload object row ids)
    (linked : Linked db) (cid : Ident) : db'.phase cid = db.phase cid ∨
      (db'.phase cid = some .staging ∧ db.phase cid = none ∧ db.chunks.get? cid = none) := by
  by_cases new : ∃ seq < chunkCount object.size object.chunkSize, cid = ids seq
  · obtain ⟨seq, inRange, rfl⟩ := new
    have absent := (creation.freshChunk seq inRange).1
    refine .inr ⟨?_, (Database.phase_eq_none linked).mpr absent, absent⟩
    refine Database.phase_eq_some.mpr
      ⟨_, row, object, (creation.created seq inRange).1, ?_, ?_, creation.staging⟩
    · simp [creation.uploads]
    · simp [creation.objects, creation.owned]
  · simp only [not_exists, not_and] at new
    have kept := creation.others cid new
    refine .inl ?_
    cases located' : db.chunks.get? cid with
    | none =>
        rw [located'] at kept
        simp [Database.phase, Database.chunkObject, located', kept]
    | some chunk =>
        obtain ⟨row', owned'⟩ := linked.chunkUpload cid chunk located'
        obtain ⟨object', found⟩ := linked.uploadObject _ row' owned'
        rw [Database.phase_of_object located' owned' found]
        have notUpload : chunk.upload ≠ upload := by
          intro equality
          rw [equality, creation.freshUpload] at owned'
          cases owned'
        have notObject : row'.object ≠ oid := by
          intro equality
          rw [equality, creation.freshObject] at found
          cases found
        exact Database.phase_eq_some.mpr ⟨chunk, row', object', by rw [kept, located'],
          by rw [creation.uploads, if_neg notUpload, owned'],
          by rw [creation.objects, if_neg notObject, found], rfl⟩

theorem LifeMove.phase (life : LifeMove focus drawn db db') (linked : Linked db) (cid : Ident) :
    PhaseMove focus db db' cid := by
  cases life with
  | same objects uploads chunks => exact .keep (phase_congr objects uploads (by rw [chunks]))
  | fixSha other chunk sha owner stored staging compatible objects uploads chunks =>
      refine .keep (phase_congr objects uploads ?_)
      rw [chunks, Table.get?_modify]
      split <;> simp [Function.comp_def]
  | confirm other chunk stored staging fixed objects uploads chunks =>
      refine .keep (phase_congr objects uploads ?_)
      rw [chunks, Table.get?_modify]
      split <;> simp [Function.comp_def]
  | publish upload row object owner stored located opened ready objects uploads chunks replicas =>
      cases located' : db.chunks.get? cid with
      | none =>
          exact .keep (by simp [Database.phase, Database.chunkObject, located', chunks])
      | some chunk =>
          obtain ⟨row', owned⟩ := linked.chunkUpload cid chunk located'
          obtain ⟨object', found⟩ := linked.uploadObject _ row' owned
          by_cases same : chunk.upload = upload
          · have rowEq : row' = row := by
              rw [same, stored, Option.some.injEq] at owned
              exact owned.symm
            subst row'
            have objectEq : object' = object := by
              rw [located, Option.some.injEq] at found
              exact found.symm
            subst object'
            have staging : object.state = .staging :=
              (linked.paired upload row object stored located).uploading_iff.mp opened
            obtain ⟨confirmed, copied⟩ := ready cid chunk located' same
            refine .publish ⟨upload, owner⟩ (staging ▸ Database.phase_of_object located' owned found)
              ?_ replicas object.replicas copied
              ⟨chunk, row, object, located', owned, found, rfl, confirmed⟩
            refine Database.phase_eq_some.mpr ⟨chunk, { row with state := .completed },
              { object with state := .published }, by rw [chunks, located'], ?_, ?_, rfl⟩
            · rw [uploads, same, Table.get?_modify_self, stored]
              simp [opened]
            · rw [objects, Table.get?_modify_self, located]
              simp [staging]
          · exact .keep (phase_of_other linked stored objects uploads chunks located' same)
  | retire upload row state stored terminal objects uploads chunks =>
      cases located' : db.chunks.get? cid with
      | none =>
          exact .keep (by simp [Database.phase, Database.chunkObject, located', chunks])
      | some chunk =>
          obtain ⟨row', owned⟩ := linked.chunkUpload cid chunk located'
          obtain ⟨object', found⟩ := linked.uploadObject _ row' owned
          by_cases same : chunk.upload = upload
          · have rowEq : row' = row := by
              rw [same, stored, Option.some.injEq] at owned
              exact owned.symm
            subst row'
            refine .delete (by simp [Database.phase_of_object located' owned found]) ?_
            refine Database.phase_eq_some.mpr ⟨chunk, { row with state },
              { object' with state := .deleted }, by rw [chunks, located'], ?_, ?_, rfl⟩
            · rw [uploads, same, Table.get?_modify_self, stored]
              rfl
            · rw [objects, Table.get?_modify_self, found]
              rfl
          · exact .keep (phase_of_other linked stored objects uploads chunks located' same)
  | create oid upload object row ids creation =>
      rcases creation.phase linked cid with kept | ⟨after, before, absent⟩
      · exact .keep kept
      · exact .create before after absent

/-- A chunk row after a move other than the creation of its upload. -/
structure ChunkKept (old new : ChunkRow) : Prop where
  upload : new.upload = old.upload
  seq : new.seq = old.seq
  length : new.length = old.length
  sha : ∀ sha, old.sha = some sha → new.sha = some sha
  confirmed : old.state = .confirmed → new.state = .confirmed

theorem ChunkKept.refl (chunk : ChunkRow) : ChunkKept chunk chunk :=
  ⟨rfl, rfl, rfl, fun _ fixed => fixed, fun confirmed => confirmed⟩

theorem ChunkKept.trans {first second third : ChunkRow} (earlier : ChunkKept first second)
    (later : ChunkKept second third) : ChunkKept first third :=
  ⟨later.upload.trans earlier.upload, later.seq.trans earlier.seq,
    later.length.trans earlier.length, fun sha fixed => later.sha sha (earlier.sha sha fixed),
    fun confirmed => later.confirmed (earlier.confirmed confirmed)⟩

theorem LifeMove.chunks (life : LifeMove focus drawn db db') {cid : Ident} {chunk : ChunkRow}
    (stored : db.chunks.get? cid = some chunk) :
    ∃ chunk', db'.chunks.get? cid = some chunk' ∧ ChunkKept chunk chunk' ∧
      (db.phase cid ≠ some .staging → chunk' = chunk) := by
  cases life with
  | same objects uploads chunks => exact ⟨chunk, by rw [chunks, stored], .refl _, fun _ => rfl⟩
  | publish upload row object _ _ _ opened ready objects uploads chunks replicas =>
      exact ⟨chunk, by rw [chunks, stored], .refl _, fun _ => rfl⟩
  | retire upload row state _ terminal objects uploads chunks =>
      exact ⟨chunk, by rw [chunks, stored], .refl _, fun _ => rfl⟩
  | fixSha other otherChunk sha owner located staging compatible objects uploads chunks =>
      rw [chunks, Table.get?_modify]
      by_cases same : cid = other
      · subst other
        rw [located, Option.some.injEq] at stored
        subst otherChunk
        refine ⟨{ chunk with sha := some sha }, by simp [located], ⟨rfl, rfl, rfl, ?_, id⟩,
          fun outside => absurd staging outside⟩
        intro fixed equality
        rcases compatible with unset | already
        · simp [unset] at equality
        · rw [already] at equality
          simpa using equality
      · exact ⟨chunk, by simp [same, stored], .refl _, fun _ => rfl⟩
  | confirm other otherChunk located staging fixed objects uploads chunks =>
      rw [chunks, Table.get?_modify]
      by_cases same : cid = other
      · subst other
        exact ⟨{ chunk with state := .confirmed }, by simp [stored],
          ⟨rfl, rfl, rfl, fun _ same => same, fun _ => rfl⟩, fun outside => absurd staging outside⟩
      · exact ⟨chunk, by simp [same, stored], .refl _, fun _ => rfl⟩
  | create oid upload object row ids creation =>
      obtain ⟨freshObject, freshUpload, objects, uploads, staging, opened, owned, sized, copied, injective,
        freshChunk, created, others⟩ := creation
      refine ⟨chunk, ?_, .refl _, fun _ => rfl⟩
      rw [others cid, stored]
      intro seq inRange equality
      rw [equality, (freshChunk seq inRange).1] at stored
      cases stored

theorem LifeMove.chunkOrigin (life : LifeMove focus drawn db db') {cid : Ident} {chunk' : ChunkRow}
    (stored : db'.chunks.get? cid = some chunk') :
    (∃ chunk, db.chunks.get? cid = some chunk ∧ ChunkKept chunk chunk' ∧
      (chunk'.state = .confirmed → chunk.state = .confirmed ∨ chunk.sha ≠ none)) ∨
    (db.chunks.get? cid = none ∧ cid ∈ drawn ∧ chunk'.state = .pending ∧
      db.uploads.get? chunk'.upload = none) := by
  cases life with
  | same objects uploads chunks => exact .inl ⟨chunk', by rw [← chunks, stored], .refl _, .inl⟩
  | publish upload row object _ _ _ opened ready objects uploads chunks replicas =>
      exact .inl ⟨chunk', by rw [← chunks, stored], .refl _, .inl⟩
  | retire upload row state _ terminal objects uploads chunks =>
      exact .inl ⟨chunk', by rw [← chunks, stored], .refl _, .inl⟩
  | fixSha other otherChunk sha owner located staging compatible objects uploads chunks =>
      rw [chunks, Table.get?_modify] at stored
      by_cases same : cid = other
      · subst other
        simp only [if_true, located, Option.map_some, Option.some.injEq] at stored
        subst chunk'
        refine .inl ⟨otherChunk, located, ⟨rfl, rfl, rfl, ?_, id⟩, .inl⟩
        intro fixed equality
        rcases compatible with unset | already
        · simp [unset] at equality
        · rw [already] at equality
          simpa using equality
      · exact .inl ⟨chunk', by simpa [same] using stored, .refl _, .inl⟩
  | confirm other otherChunk located staging fixed objects uploads chunks =>
      rw [chunks, Table.get?_modify] at stored
      by_cases same : cid = other
      · subst other
        simp only [if_true, located, Option.map_some, Option.some.injEq] at stored
        subst chunk'
        exact .inl ⟨otherChunk, located, ⟨rfl, rfl, rfl, fun _ same => same, fun _ => rfl⟩,
          fun _ => .inr fixed⟩
      · exact .inl ⟨chunk', by simpa [same] using stored, .refl _, .inl⟩
  | create oid upload object row ids creation =>
      obtain ⟨freshObject, freshUpload, objects, uploads, staging, opened, owned, sized, copied, injective,
        freshChunk, created, others⟩ := creation
      by_cases new : ∃ seq < chunkCount object.size object.chunkSize, cid = ids seq
      · obtain ⟨seq, inRange, rfl⟩ := new
        rw [(created seq inRange).1, Option.some.injEq] at stored
        subst chunk'
        exact .inr ⟨(freshChunk seq inRange).1, (freshChunk seq inRange).2, rfl, freshUpload⟩
      · simp only [not_exists, not_and] at new
        exact .inl ⟨chunk', by rw [← others cid new, stored], .refl _, .inl⟩

/-- The data of an object row that never change. -/
structure ObjectKept (old new : ObjectRow) : Prop where
  owner : new.owner = old.owner
  name : new.name = old.name
  size : new.size = old.size
  chunkSize : new.chunkSize = old.chunkSize
  replicas : new.replicas = old.replicas
  advances : Advances old.state new.state

theorem ObjectKept.refl (object : ObjectRow) : ObjectKept object object :=
  ⟨rfl, rfl, rfl, rfl, rfl, .refl _⟩

theorem ObjectKept.trans {first second third : ObjectRow} (earlier : ObjectKept first second)
    (later : ObjectKept second third) : ObjectKept first third :=
  ⟨later.owner.trans earlier.owner, later.name.trans earlier.name, later.size.trans earlier.size,
    later.chunkSize.trans earlier.chunkSize, later.replicas.trans earlier.replicas,
    earlier.advances.trans later.advances⟩

theorem LifeMove.objects (life : LifeMove focus drawn db db') {oid : Ident} {object : ObjectRow}
    (stored : db.objects.get? oid = some object) :
    ∃ object', db'.objects.get? oid = some object' ∧ ObjectKept object object' := by
  cases life with
  | same objects uploads chunks | fixSha _ _ _ _ _ _ _ objects uploads chunks
  | confirm _ _ _ _ _ objects uploads chunks =>
      exact ⟨object, by rw [objects, stored], .refl _⟩
  | publish upload row published _ _ located opened ready objects uploads chunks replicas =>
      rw [objects, Table.get?_modify]
      by_cases same : oid = row.object
      · refine ⟨_, by rw [if_pos same, stored, Option.map_some], ?_⟩
        by_cases staging : object.state = .staging
        · rw [if_pos staging]
          exact ⟨rfl, rfl, rfl, rfl, rfl, by rw [staging]; exact .publish⟩
        · rw [if_neg staging]
          exact .refl _
      · exact ⟨object, by simp [same, stored], .refl _⟩
  | retire upload row state _ terminal objects uploads chunks =>
      rw [objects, Table.get?_modify]
      by_cases same : oid = row.object
      · exact ⟨{ object with state := .deleted }, by rw [if_pos same, stored, Option.map_some],
          ⟨rfl, rfl, rfl, rfl, rfl, .delete _⟩⟩
      · exact ⟨object, by simp [same, stored], .refl _⟩
  | create new upload created row ids creation =>
      obtain ⟨freshObject, freshUpload, objects, uploads, staging, opened, owned, sized, copied, injective,
        freshChunk, chunks, others⟩ := creation
      refine ⟨object, ?_, .refl _⟩
      rw [objects, if_neg, stored]
      rintro rfl
      rw [freshObject] at stored
      cases stored

theorem LifeMove.uploads (life : LifeMove focus drawn db db') {upload : Ident} {row : UploadRow}
    (stored : db.uploads.get? upload = some row) :
    ∃ row', db'.uploads.get? upload = some row' ∧ row'.object = row.object ∧
      row'.expires = row.expires := by
  cases life with
  | same objects uploads chunks | fixSha _ _ _ _ _ _ _ objects uploads chunks
  | confirm _ _ _ _ _ objects uploads chunks =>
      exact ⟨row, by rw [uploads, stored], rfl, rfl⟩
  | publish other _ _ _ _ _ _ _ objects uploads chunks replicas =>
      rw [uploads, Table.get?_modify]
      split
      · refine ⟨_, by rw [stored, Option.map_some], ?_⟩
        split <;> exact ⟨rfl, rfl⟩
      · exact ⟨row, stored, rfl, rfl⟩
  | retire other _ state _ terminal objects uploads chunks =>
      rw [uploads, Table.get?_modify]
      split
      · exact ⟨{ row with state }, by rw [stored, Option.map_some], rfl, rfl⟩
      · exact ⟨row, stored, rfl, rfl⟩
  | create new other created _ ids creation =>
      obtain ⟨freshObject, freshUpload, objects, uploads, staging, opened, owned, sized, copied, injective,
        freshChunk, chunks, others⟩ := creation
      refine ⟨row, ?_, rfl, rfl⟩
      rw [uploads, if_neg, stored]
      rintro rfl
      rw [freshUpload] at stored
      cases stored

theorem LifeMove.uploadOrigin (life : LifeMove focus drawn db db') {upload : Ident} {row' : UploadRow}
    (stored : db'.uploads.get? upload = some row') :
    (∃ row, db.uploads.get? upload = some row ∧ row'.object = row.object) ∨
    (db.uploads.get? upload = none ∧ db.objects.get? row'.object = none ∧
      ∃ object, db'.objects.get? row'.object = some object) := by
  cases life with
  | same objects uploads chunks | fixSha _ _ _ _ _ _ _ objects uploads chunks
  | confirm _ _ _ _ _ objects uploads chunks =>
      exact .inl ⟨row', by rw [← uploads, stored], rfl⟩
  | publish other _ _ _ _ _ _ _ objects uploads chunks replicas =>
      rw [uploads, Table.get?_modify] at stored
      split at stored
      · obtain ⟨row, found, rfl⟩ := Option.map_eq_some_iff.mp stored
        exact .inl ⟨row, found, by split <;> rfl⟩
      · exact .inl ⟨row', stored, rfl⟩
  | retire other _ state _ terminal objects uploads chunks =>
      rw [uploads, Table.get?_modify] at stored
      split at stored
      · obtain ⟨row, found, rfl⟩ := Option.map_eq_some_iff.mp stored
        exact .inl ⟨row, found, rfl⟩
      · exact .inl ⟨row', stored, rfl⟩
  | create oid new object created ids creation =>
      obtain ⟨freshObject, freshUpload, objects, uploads, staging, opened, owned, sized, copied, injective,
        freshChunk, chunks, others⟩ := creation
      rw [uploads] at stored
      split at stored
      · next same =>
          cases stored
          exact .inr ⟨same ▸ freshUpload, owned ▸ freshObject, object, by simp [objects, owned]⟩
      · exact .inl ⟨row', stored, rfl⟩

theorem LifeMove.objectOrigin (life : LifeMove focus drawn db db') {oid : Ident} {object' : ObjectRow}
    (stored : db'.objects.get? oid = some object') :
    (∃ object, db.objects.get? oid = some object) ∨
    (db.objects.get? oid = none ∧ 0 < object'.chunkSize ∧ 0 < object'.replicas ∧
      ∃ upload row, db'.uploads.get? upload = some row ∧ row.object = oid) := by
  cases life with
  | same objects uploads chunks | fixSha _ _ _ _ _ _ _ objects uploads chunks
  | confirm _ _ _ _ _ objects uploads chunks =>
      exact .inl ⟨object', by rw [← objects, stored]⟩
  | publish _ _ _ _ _ _ _ _ objects uploads chunks replicas | retire _ _ _ _ _ objects uploads chunks =>
      rw [objects, Table.get?_modify] at stored
      split at stored
      · obtain ⟨object, found, _⟩ := Option.map_eq_some_iff.mp stored
        exact .inl ⟨object, found⟩
      · exact .inl ⟨object', stored⟩
  | create new upload object row ids creation =>
      obtain ⟨freshObject, freshUpload, objects, uploads, staging, opened, owned, sized, copied, injective,
        freshChunk, chunks, others⟩ := creation
      rw [objects] at stored
      split at stored
      · next same =>
          cases stored
          exact .inr ⟨same ▸ freshObject, sized, copied, upload, row, by simp [uploads],
            owned.trans same.symm⟩
      · exact .inl ⟨object', stored⟩

theorem LifeMove.linked (life : LifeMove focus drawn db db') (linked : Linked db) : Linked db' where
  chunkUpload := by
    intro cid chunk' stored
    rcases life.chunkOrigin stored with ⟨chunk, before, kept, _⟩ | ⟨absent, _⟩
    · obtain ⟨row, owned⟩ := linked.chunkUpload cid chunk before
      obtain ⟨row', after, _⟩ := life.uploads owned
      exact ⟨row', kept.upload ▸ after⟩
    · cases life with
      | same objects uploads chunks | publish _ _ _ _ _ _ _ _ objects uploads chunks
      | retire _ _ _ _ _ objects uploads chunks =>
          rw [chunks, absent] at stored
          cases stored
      | fixSha other _ _ _ _ _ _ objects uploads chunks | confirm other _ _ _ _ objects uploads chunks =>
          rw [chunks, Table.get?_modify, absent] at stored
          simp at stored
      | create oid upload object row ids creation =>
          obtain ⟨_, _, objects, uploads, _, _, _, _, _, _, _, created, others⟩ := creation
          by_cases new : ∃ seq < chunkCount object.size object.chunkSize, cid = ids seq
          · obtain ⟨seq, inRange, rfl⟩ := new
            rw [(created seq inRange).1, Option.some.injEq] at stored
            exact ⟨row, by simp [uploads, ← stored]⟩
          · simp only [not_exists, not_and] at new
            rw [others cid new, absent] at stored
            cases stored
  uploadObject := by
    intro upload row' stored
    rcases life.uploadOrigin stored with ⟨row, before, same⟩ | ⟨_, _, object⟩
    · obtain ⟨object, located⟩ := linked.uploadObject upload row before
      obtain ⟨object', after, _⟩ := life.objects located
      exact ⟨object', same ▸ after⟩
    · exact object
  objectUpload := by
    intro oid object' stored
    rcases life.objectOrigin stored with ⟨object, before⟩ | ⟨_, _, _, owner⟩
    · obtain ⟨upload, row, located, rfl⟩ := linked.objectUpload oid object before
      obtain ⟨row', after, same, _⟩ := life.uploads located
      exact ⟨upload, row', after, same⟩
    · exact owner
  uploadUnique := by
    intro first second row row' storedFirst storedSecond same
    rcases life.uploadOrigin storedFirst with ⟨old, before, kept⟩ | ⟨freshFirst, freshObject, _⟩
    · rcases life.uploadOrigin storedSecond with ⟨old', before', kept'⟩ | ⟨_, freshObject, _⟩
      · exact linked.uploadUnique _ _ _ _ before before' (kept.symm.trans (same.trans kept'))
      · obtain ⟨object, located⟩ := linked.uploadObject _ _ before
        rw [← kept, same, freshObject] at located
        cases located
    · rcases life.uploadOrigin storedSecond with ⟨old', before', kept'⟩ | ⟨freshSecond, _, _⟩
      · obtain ⟨object, located⟩ := linked.uploadObject _ _ before'
        rw [← kept', ← same, freshObject] at located
        cases located
      · cases life with
        | same objects uploads chunks | fixSha _ _ _ _ _ _ _ objects uploads chunks
        | confirm _ _ _ _ _ objects uploads chunks =>
            rw [uploads, freshFirst] at storedFirst
            cases storedFirst
        | publish _ _ _ _ _ _ _ _ objects uploads chunks | retire _ _ _ _ _ objects uploads chunks =>
            rw [uploads, Table.get?_modify, freshFirst] at storedFirst
            simp at storedFirst
        | create oid upload _ _ _ creation =>
            obtain ⟨_, _, objects, uploads, _⟩ := creation
            rw [uploads, freshFirst] at storedFirst
            rw [uploads, freshSecond] at storedSecond
            have isFirst : first = upload := by by_contra other; simp [other] at storedFirst
            have isSecond : second = upload := by by_contra other; simp [other] at storedSecond
            exact isFirst.trans isSecond.symm
  paired := by
    intro upload row' object' stored located
    cases life with
    | same objects uploads chunks | fixSha _ _ _ _ _ _ _ objects uploads chunks
    | confirm _ _ _ _ _ objects uploads chunks =>
        exact linked.paired upload row' object' (uploads ▸ stored) (objects ▸ located)
    | publish other row object _ known found opened ready objects uploads chunks replicas =>
        have staging := (linked.paired other row object known found).uploading_iff.mp opened
        rw [uploads, Table.get?_modify] at stored
        rw [objects, Table.get?_modify] at located
        by_cases same : upload = other
        · subst other
          simp only [if_true, known, Option.map_some, opened, Option.some.injEq] at stored
          subst row'
          simp only [if_true, found, Option.map_some, staging, Option.some.injEq] at located
          subst object'
          exact .completed
        · rw [if_neg same] at stored
          have otherObject : row'.object ≠ row.object := fun equality =>
            same (linked.uploadUnique _ _ _ _ stored known equality)
          rw [if_neg otherObject] at located
          exact linked.paired upload row' object' stored located
    | retire other row state known terminal objects uploads chunks =>
        rw [uploads, Table.get?_modify] at stored
        rw [objects, Table.get?_modify] at located
        by_cases same : upload = other
        · subst other
          simp only [if_true, known, Option.map_some, Option.some.injEq] at stored
          subst row'
          rw [if_pos rfl] at located
          obtain ⟨object, _, rfl⟩ := Option.map_eq_some_iff.mp located
          rcases terminal with rfl | rfl
          · exact .cancelled
          · exact .expired
        · rw [if_neg same] at stored
          have otherObject : row'.object ≠ row.object := fun equality =>
            same (linked.uploadUnique _ _ _ _ stored known equality)
          rw [if_neg otherObject] at located
          exact linked.paired upload row' object' stored located
    | create oid new object row ids creation =>
        obtain ⟨freshObject, freshUpload, objects, uploads, staging, opened, owned, _⟩ := creation
        rw [uploads] at stored
        rw [objects] at located
        split at stored
        · cases stored
          rw [if_pos owned] at located
          cases located
          rw [opened, staging]
          exact .uploading
        · have otherObject : row'.object ≠ oid := by
            intro equality
            obtain ⟨object, found⟩ := linked.uploadObject _ _ stored
            rw [equality, freshObject] at found
            cases found
          rw [if_neg otherObject] at located
          exact linked.paired upload row' object' stored located

theorem LifeMove.newUpload (life : LifeMove focus drawn db db') {upload : Ident} {row' : UploadRow}
    (absent : db.uploads.get? upload = none) (stored : db'.uploads.get? upload = some row') :
    ∃ oid object ids, Creation drawn db db' oid upload object row' ids := by
  cases life with
  | same objects uploads chunks | fixSha _ _ _ _ _ _ _ objects uploads chunks
  | confirm _ _ _ _ _ objects uploads chunks =>
      rw [uploads, absent] at stored
      cases stored
  | publish _ _ _ _ _ _ _ _ objects uploads chunks | retire _ _ _ _ _ objects uploads chunks =>
      rw [uploads, Table.get?_modify, absent] at stored
      simp at stored
  | create oid new object row ids creation =>
      rw [creation.uploads] at stored
      split at stored
      · next same =>
          cases stored
          exact ⟨oid, object, ids, same ▸ creation⟩
      · rw [absent] at stored
        cases stored

theorem LifeMove.newChunk (life : LifeMove focus drawn db db') {cid : Ident} {chunk' : ChunkRow}
    (absent : db.chunks.get? cid = none) (stored : db'.chunks.get? cid = some chunk') :
    ∃ oid upload object row ids, Creation drawn db db' oid upload object row ids ∧
      ∃ seq < chunkCount object.size object.chunkSize, cid = ids seq := by
  cases life with
  | same objects uploads chunks | publish _ _ _ _ _ _ _ _ objects uploads chunks
  | retire _ _ _ _ _ objects uploads chunks =>
      rw [chunks, absent] at stored
      cases stored
  | fixSha other _ _ _ _ _ _ objects uploads chunks | confirm other _ _ _ _ objects uploads chunks =>
      rw [chunks, Table.get?_modify, absent] at stored
      simp at stored
  | create oid upload object row ids creation =>
      refine ⟨oid, upload, object, row, ids, creation, ?_⟩
      by_contra other
      simp only [not_exists, not_and] at other
      rw [creation.others cid other, absent] at stored
      cases stored

theorem LifeMove.shaped (life : LifeMove focus drawn db db') (linked : Linked db) (shaped : Shaped db) :
    Shaped db' where
  sized := by
    intro oid object' stored
    rcases life.objectOrigin stored with ⟨object, before⟩ | ⟨_, positive, _, _⟩
    · obtain ⟨after, found, kept⟩ := life.objects before
      rw [found, Option.some.injEq] at stored
      subst object'
      rw [kept.chunkSize]
      exact shaped.sized oid object before
    · exact positive
  copied := by
    intro oid object' stored
    rcases life.objectOrigin stored with ⟨object, before⟩ | ⟨_, _, positive, _⟩
    · obtain ⟨after, found, kept⟩ := life.objects before
      rw [found, Option.some.injEq] at stored
      subst object'
      rw [kept.replicas]
      exact shaped.copied oid object before
    · exact positive
  numbered := by
    intro upload row' object' stored located seq inRange
    cases before : db.uploads.get? upload with
    | none =>
        obtain ⟨oid, object, ids, creation⟩ := life.newUpload before stored
        rw [creation.objects, if_pos creation.owned, Option.some.injEq] at located
        subst object'
        exact ⟨ids seq, _, (creation.created seq inRange).1, rfl, rfl⟩
    | some row =>
        obtain ⟨object, found⟩ := linked.uploadObject upload row before
        obtain ⟨row'', after, same, _⟩ := life.uploads before
        rw [stored, Option.some.injEq] at after
        subst row''
        obtain ⟨object'', foundAfter, kept⟩ := life.objects found
        rw [← same, located, Option.some.injEq] at foundAfter
        subst object''
        rw [kept.size, kept.chunkSize] at inRange
        obtain ⟨cid, chunk, known, owned, numbered⟩ :=
          shaped.numbered upload row object before found seq inRange
        obtain ⟨chunk', foundChunk, keptChunk, _⟩ := life.chunks known
        exact ⟨cid, chunk', foundChunk, keptChunk.upload.trans owned, keptChunk.seq.trans numbered⟩
  bounded := by
    intro cid chunk' row' object' stored owned located
    cases before : db.chunks.get? cid with
    | none =>
        obtain ⟨oid, upload, object, row, ids, creation, seq, inRange, rfl⟩ :=
          life.newChunk before stored
        rw [(creation.created seq inRange).1, Option.some.injEq] at stored
        subst chunk'
        rw [creation.uploads, if_pos rfl, Option.some.injEq] at owned
        subst row'
        rw [creation.objects, if_pos creation.owned, Option.some.injEq] at located
        subst object'
        exact ⟨inRange, rfl⟩
    | some chunk =>
        obtain ⟨chunk'', after, kept, _⟩ := life.chunks before
        rw [stored, Option.some.injEq] at after
        subst chunk''
        obtain ⟨row, ownedBefore⟩ := linked.chunkUpload cid chunk before
        obtain ⟨object, locatedBefore⟩ := linked.uploadObject _ row ownedBefore
        obtain ⟨row'', afterRow, same, _⟩ := life.uploads ownedBefore
        rw [← kept.upload, owned, Option.some.injEq] at afterRow
        subst row''
        obtain ⟨object'', afterObject, keptObject⟩ := life.objects locatedBefore
        rw [← same, located, Option.some.injEq] at afterObject
        subst object''
        rw [kept.seq, kept.length, keptObject.size, keptObject.chunkSize]
        exact shaped.bounded cid chunk row object before ownedBefore locatedBefore
  seqUnique := by
    intro first second chunk chunk' storedFirst storedSecond sameUpload sameSeq
    cases beforeFirst : db.chunks.get? first with
    | none =>
        obtain ⟨oid, upload, object, row, ids, creation, seq, inRange, rfl⟩ :=
          life.newChunk beforeFirst storedFirst
        rw [(creation.created seq inRange).1, Option.some.injEq] at storedFirst
        subst chunk
        by_cases new : ∃ seq' < chunkCount object.size object.chunkSize, second = ids seq'
        · obtain ⟨seq', inRange', rfl⟩ := new
          rw [(creation.created seq' inRange').1, Option.some.injEq] at storedSecond
          subst chunk'
          exact congrArg ids sameSeq
        · simp only [not_exists, not_and] at new
          rw [creation.others second new] at storedSecond
          obtain ⟨row', owned⟩ := linked.chunkUpload second chunk' storedSecond
          rw [← sameUpload, creation.freshUpload] at owned
          cases owned
    | some old =>
        obtain ⟨chunk'', after, kept, _⟩ := life.chunks beforeFirst
        rw [storedFirst, Option.some.injEq] at after
        subst chunk''
        cases beforeSecond : db.chunks.get? second with
        | none =>
            obtain ⟨oid, upload, object, row, ids, creation, seq, inRange, rfl⟩ :=
              life.newChunk beforeSecond storedSecond
            rw [(creation.created seq inRange).1, Option.some.injEq] at storedSecond
            subst chunk'
            obtain ⟨row', owned⟩ := linked.chunkUpload first old beforeFirst
            rw [← kept.upload, sameUpload, creation.freshUpload] at owned
            cases owned
        | some old' =>
            obtain ⟨chunk'', after, kept', _⟩ := life.chunks beforeSecond
            rw [storedSecond, Option.some.injEq] at after
            subst chunk''
            exact shaped.seqUnique first second old old' beforeFirst beforeSecond
              (kept.upload.symm.trans (sameUpload.trans kept'.upload))
              (kept.seq.symm.trans (sameSeq.trans kept'.seq))
  confirmedSha := by
    intro cid chunk' stored confirmed
    rcases life.chunkOrigin stored with ⟨chunk, before, kept, origin⟩ | ⟨_, _, pending, _⟩
    · have fixed : chunk.sha ≠ none := (origin confirmed).elim (shaped.confirmedSha cid chunk before) id
      obtain ⟨sha, known⟩ := Option.ne_none_iff_exists'.mp fixed
      simp [kept.sha sha known]
    · simp [pending] at confirmed

end LifeMoves

end FileServer.Metadata
