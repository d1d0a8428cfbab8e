import FileServer.Metadata.Objects

/-!
# Whether an upload can be completed

`status` lists the chunks that are not confirmed, page by page.  `complete`
also counts the valid copies of every chunk, so an empty listing is necessary
but not sufficient.
-/

namespace FileServer.Metadata

open FileServer.Relational FileServer.Transition FileServer.Sequence

namespace Database

/-- The pages of `status` from a cursor to the end, all read from one state. -/
inductive Pages (db : Database) (now : Time) (owner : String) (upload : Ident) :
    Int → List Nat → Prop where
  | last (cursor oid state expires confirmed chunkSize size missing)
      (page : db.status now owner upload cursor =
        .ok (.status oid state expires confirmed chunkSize size missing none)) :
      Pages db now owner upload cursor missing
  | next (cursor oid state expires confirmed chunkSize size missing next rest)
      (page : db.status now owner upload cursor =
        .ok (.status oid state expires confirmed chunkSize size missing (some next)))
      (later : Pages db now owner upload next rest) :
      Pages db now owner upload cursor (missing ++ rest)

def unconfirmed (db : Database) (upload : Ident) (cursor : Int) : List Nat :=
  ((db.chunksOf upload).filter fun entry =>
    entry.2.state ≠ .confirmed ∧ cursor ≤ entry.2.seq).map fun entry => entry.2.seq

/-- Enough copies of every chunk of the upload are valid. -/
def Replicated (db : Database) (upload : Ident) (object : ObjectRow) : Prop :=
  ∀ cid chunk, db.chunks.get? cid = some chunk → chunk.upload = upload →
    object.replicas ≤ ((db.replicasOf cid).filter fun entry => entry.2.state = .valid).length

def AllConfirmed (db : Database) (upload : Ident) : Prop :=
  ∀ cid chunk, db.chunks.get? cid = some chunk → chunk.upload = upload → chunk.state = .confirmed

section Loop

variable {db : Database} {now : Time}

/-- The loop of `complete` passes over chunks numbered in order when each is
confirmed with enough valid copies. -/
theorem checkChunks_iff {object : ObjectRow} {chunks : List (Ident × ChunkRow)} {index : Nat}
    (numbered : chunks.map (fun entry => entry.2.seq) = List.range' index chunks.length)
    (sized : ∀ entry ∈ chunks, (entry.2.length : Int) =
      min (object.chunkSize : Int) (object.size - entry.2.seq * object.chunkSize)) :
    checkChunks db object index chunks = .ok ⟨⟩ ↔
      ∀ entry ∈ chunks, entry.2.state = .confirmed ∧ object.replicas ≤
        ((db.replicasOf entry.1).filter fun replica => replica.2.state = .valid).length := by
  refine ⟨checkChunks_ok, fun ready => ?_⟩
  induction chunks generalizing index with
  | nil => rfl
  | cons entry rest inductionHypothesis =>
      rcases entry with ⟨cid, chunk⟩
      simp only [List.map_cons, List.length_cons, List.range'_succ, List.cons.injEq] at numbered
      obtain ⟨first, later⟩ := numbered
      obtain ⟨confirmed, copies⟩ := ready (cid, chunk) List.mem_cons_self
      have length := sized (cid, chunk) List.mem_cons_self
      simp only at confirmed copies length
      simp only [checkChunks, bind_eq_ok, require_eq_ok, exists_const]
      refine ⟨⟨first, first ▸ length, confirmed⟩, copies, ?_⟩
      exact inductionHypothesis later
        (fun other membership => sized other (List.mem_cons_of_mem _ membership))
        fun other membership => ready other (List.mem_cons_of_mem _ membership)

variable {upload : Ident} {row : UploadRow} {object : ObjectRow}

theorem chunksOf_numbered (shaped : Shaped db) (stored : db.uploads.get? upload = some row)
    (located : db.objects.get? row.object = some object) :
    (db.chunksOf upload).map (fun entry => entry.2.seq) =
      List.range (chunkCount object.size object.chunkSize) := by
  refine (shaped.seqs_perm stored located).eq_of_sortedLE ?_ (List.sortedLT_range _).sortedLE
  rw [chunksOf, List.map_insertionSort _ (· ≤ ·) _ _ fun _ _ _ _ => Iff.rfl]
  exact List.sortedLE_insertionSort

theorem complete_iff (consistent : Consistent db) (stored : db.uploads.get? upload = some row)
    (located : db.objects.get? row.object = some object) (opened : row.state = .uploading)
    (alive : now < row.expires) :
    (∃ db', db.complete now object.owner upload = .ok (.published row.object, db')) ↔
      db.AllConfirmed upload ∧ db.Replicated upload object := by
  have numbered := chunksOf_numbered consistent.shaped stored located
  have counted : (db.chunksOf upload).length = chunkCount object.size object.chunkSize := by
    simpa using congrArg List.length numbered
  have sized : ∀ entry ∈ db.chunksOf upload, (entry.2.length : Int) =
      min (object.chunkSize : Int) (object.size - entry.2.seq * object.chunkSize) := by
    rintro ⟨cid, chunk⟩ membership
    obtain ⟨present, owned⟩ := db.mem_chunksOf.mp membership
    obtain ⟨inRange, length⟩ :=
      consistent.shaped.bounded cid chunk row object present (owned ▸ stored) located
    have within := mul_lt_of_lt_pieceCount (consistent.shaped.sized _ object located) inRange
    simp only [length]
    omega
  have passes : checkChunks db object 0 (db.chunksOf upload) = .ok ⟨⟩ ↔ _ :=
    checkChunks_iff (by rw [numbered, counted, List.range_eq_range']) sized
  constructor
  · rintro ⟨db', completed⟩
    obtain ⟨row', object', stored', located', _, _, outcome⟩ := complete_ok completed
    obtain rfl := Option.some.inj (stored.symm.trans stored')
    obtain rfl := Option.some.inj (located.symm.trans located')
    rcases outcome with ⟨closed, _⟩ | ⟨_, _, _, checked, _⟩
    · simp [closed] at opened
    · have ready := passes.mp checked
      exact ⟨fun cid chunk present owned =>
          (ready (cid, chunk) (db.mem_chunksOf.mpr ⟨present, owned⟩)).1,
        fun cid chunk present owned =>
          (ready (cid, chunk) (db.mem_chunksOf.mpr ⟨present, owned⟩)).2⟩
  · rintro ⟨confirmed, replicated⟩
    have checked := passes.mpr fun entry membership =>
      ⟨confirmed _ _ (db.mem_chunksOf.mp membership).1 (db.mem_chunksOf.mp membership).2,
        replicated _ _ (db.mem_chunksOf.mp membership).1 (db.mem_chunksOf.mp membership).2⟩
    refine ⟨db.publish upload row.object, ?_⟩
    simp only [complete, bind_eq_ok, Prod.exists, active_ok]
    refine ⟨row, object, ⟨stored, located, .inr rfl, by simp, by simp⟩, ?_⟩
    simp [opened, alive, counted, checked]

theorem status_eq (stored : db.uploads.get? upload = some row)
    (located : db.objects.get? row.object = some object) {cursor : Int} (positive : 0 ≤ cursor) :
    db.status now object.owner upload cursor = .ok (.status row.object row.state row.expires
      (db.confirmedBytes upload) object.chunkSize object.size
      (((db.unconfirmed upload cursor).take 257).take 256)
      (if 256 < ((db.unconfirmed upload cursor).take 257).length then
        ((db.unconfirmed upload cursor).take 257)[255]?.map (· + 1) else none)) := by
  simp only [status, bind_eq_ok, require_eq_ok, pure_eq_ok, Prod.exists, active_ok, exists_const]
  exact ⟨row, object, ⟨stored, located, .inr rfl, by simp, by simp⟩, positive, rfl⟩

/-- A number of an increasing list is among the first ones when it does not
exceed the last of these. -/
theorem mem_take_of_le {seqs : List Nat} (increasing : seqs.Pairwise (· < ·)) {seq count : Nat}
    (listed : seq ∈ seqs) (reached : ∀ last, seqs[count]? = some last → seq ≤ last) :
    seq ∈ seqs.take (count + 1) := by
  obtain ⟨index, bound, rfl⟩ := List.mem_iff_getElem.mp listed
  rcases Nat.lt_or_ge count index with beyond | within
  · have earlier := List.pairwise_iff_getElem.mp increasing count index (by omega) bound beyond
    exact absurd (reached _ (List.getElem?_eq_getElem (by omega))) (by omega)
  · exact List.mem_take_iff_getElem.mpr ⟨index, by omega, rfl⟩

theorem status_ok (consistent : Consistent db) {owner : String} {cursor : Int} {oid : Ident}
    {state : UploadState} {expires : Time} {confirmed chunkSize size : Nat} {missing : List Nat}
    {next : Option Nat} (page : db.status now owner upload cursor =
      .ok (.status oid state expires confirmed chunkSize size missing next)) :
    ∃ row object, db.uploads.get? upload = some row ∧ db.objects.get? row.object = some object ∧
      object.owner = owner ∧ oid = row.object ∧ state = row.state ∧ chunkSize = object.chunkSize ∧
      size = object.size ∧
      ∀ cid chunk, db.chunks.get? cid = some chunk → chunk.upload = upload →
        cursor ≤ chunk.seq → (∀ stop, next = some stop → chunk.seq < stop) →
        chunk.state ≠ .confirmed → chunk.seq ∈ missing := by
  simp only [status, bind_eq_ok, require_eq_ok, pure_eq_ok, Prod.exists, active_ok,
    exists_const, Reply.status.injEq] at page
  obtain ⟨row, object, ⟨stored, located, owned, _⟩, _, rfl, rfl, _, _, rfl, rfl, listed, followed⟩ :=
    page
  refine ⟨row, object, stored, located, by simpa [eq_comm] using owned, rfl, rfl, rfl, rfl, ?_⟩
  intro cid chunk present part low high pending
  have numbers : (db.unconfirmed upload cursor).Pairwise (· < ·) := by
    refine List.Pairwise.sublist (List.filter_sublist.map _) ?_
    rw [chunksOf_numbered consistent.shaped stored located]
    exact List.pairwise_lt_range
  have awaited : chunk.seq ∈ db.unconfirmed upload cursor :=
    List.mem_map.mpr ⟨(cid, chunk), List.mem_filter.mpr
      ⟨db.mem_chunksOf.mpr ⟨present, part⟩, by simp [pending, low]⟩, rfl⟩
  rw [← unconfirmed] at listed followed
  rw [← listed, List.take_take]
  rcases Nat.lt_or_ge 256 (db.unconfirmed upload cursor).length with long | short
  · refine mem_take_of_le numbers awaited fun last found => ?_
    have stop := high (last + 1) (by
      rw [← followed, if_pos (by simp only [List.length_take]; omega),
        List.getElem?_take_of_lt (by decide), found]
      rfl)
    omega
  · rwa [List.take_of_length_le (by omega)]

theorem unconfirmed_empty_iff :
    db.unconfirmed upload 0 = [] ↔ db.AllConfirmed upload := by
  simp only [unconfirmed, List.map_eq_nil_iff, List.filter_eq_nil_iff, Prod.forall, mem_chunksOf,
    decide_eq_true_eq, not_and_or, not_not, AllConfirmed]
  constructor
  · intro covered cid chunk present owned
    rcases covered cid chunk ⟨present, owned⟩ with confirmed | negative
    · exact confirmed
    · exact absurd (Int.natCast_nonneg chunk.seq) negative
  · rintro confirmed cid chunk ⟨present, owned⟩
    exact .inl (confirmed cid chunk present owned)

/-- No page lists a chunk when all are confirmed, and only then. -/
theorem pages_empty_iff (stored : db.uploads.get? upload = some row)
    (located : db.objects.get? row.object = some object) :
    db.Pages now object.owner upload 0 [] ↔ db.AllConfirmed upload := by
  have page : db.status now object.owner upload 0 = _ :=
    status_eq stored located (le_refl (0 : Int))
  rw [← unconfirmed_empty_iff]
  constructor
  · intro pages
    generalize listed : ([] : List Nat) = seqs at pages
    cases pages with
    | last _ _ _ _ _ _ _ _ read =>
        rw [page] at read
        simp only [Except.ok.injEq, Reply.status.injEq] at read
        have first := read.2.2.2.2.2.2.1
        rw [← listed, List.take_take, List.take_eq_nil_iff] at first
        exact (first.resolve_left (by simp)).trans listed
    | next _ _ _ _ _ _ _ missing next rest read =>
        rw [page] at read
        simp only [Except.ok.injEq, Reply.status.injEq] at read
        have first := read.2.2.2.2.2.2.1
        rw [(List.append_eq_nil_iff.mp listed.symm).1, List.take_take, List.take_eq_nil_iff] at first
        exact (first.resolve_left (by simp)).trans listed
  · intro empty
    rw [empty] at page
    exact .last 0 _ _ _ _ _ _ _ page

end Loop

end Database

/-- The pages of `status` list no chunk and enough copies of every chunk are
valid exactly when a `complete` succeeds; it then publishes the object. -/
theorem status_complete {σ : State} (reached : Reachable metadata σ) {upload : Ident}
    {row : UploadRow} {object : ObjectRow} (stored : σ.db.uploads.get? upload = some row)
    (located : σ.db.objects.get? row.object = some object) (opened : row.state = .uploading)
    (alive : σ.now < row.expires) :
    (σ.db.Pages σ.now object.owner upload 0 [] ∧ σ.db.Replicated upload object) ↔
      ∃ db, σ.db.complete σ.now object.owner upload = .ok (.published row.object, db) ∧
        ∃ published, db.objects.get? row.object = some published ∧
          published.state = .published := by
  have consistent := (reachable_invariant reached).consistent
  rw [Database.pages_empty_iff stored located,
    ← Database.complete_iff consistent stored located opened alive]
  constructor
  · rintro ⟨db, completed⟩
    refine ⟨db, completed, ?_⟩
    obtain ⟨row', object', stored', located', _, _, outcome⟩ := Database.complete_ok completed
    obtain rfl := Option.some.inj (stored.symm.trans stored')
    obtain rfl := Option.some.inj (located.symm.trans located')
    rcases outcome with ⟨closed, _⟩ | ⟨_, _, _, _, rfl⟩
    · simp [closed] at opened
    · have staging := (consistent.linked.paired upload row object stored located).uploading_iff.mp
        opened
      exact ⟨{ object with state := .published },
        by simp [Database.publish, Table.get?_modify_self, located, staging], rfl⟩
  · rintro ⟨db, completed, _⟩
    exact ⟨db, completed⟩

/-- A confirmed upload is completed. -/
theorem status_complete_uploaded : ∃ σ, Reachable metadata σ ∧ ∃ db,
    σ.db.complete σ.now "owner" 1001 = .ok (.published 1000, db) ∧
      ∃ published, db.objects.get? 1000 = some published ∧ published.state = .published := by
  have run := metadata.run uploadActions.dropLast (by decide +kernel)
  have stored : ((metadata.execute metadata.initial uploadActions.dropLast).get
      (by decide +kernel)).db.uploads.get? 1001 = some ⟨1000, .uploading, 1000⟩ := by
    decide +kernel
  have located : ((metadata.execute metadata.initial uploadActions.dropLast).get
      (by decide +kernel)).db.objects.get? 1000 =
        some ⟨"owner", "file", 1, 4, 2, .staging⟩ := by decide +kernel
  have rows : ((metadata.execute metadata.initial uploadActions.dropLast).get
      (by decide +kernel)).db.chunks.rows = [(1002, ⟨1001, 0, 1, some 7, .confirmed⟩)] := by
    decide +kernel
  have copies : 2 ≤ ((((metadata.execute metadata.initial uploadActions.dropLast).get
      (by decide +kernel)).db.replicasOf 1002).filter fun entry => entry.2.state = .valid).length := by
    decide +kernel
  have early : ((metadata.execute metadata.initial uploadActions.dropLast).get
      (by decide +kernel)).now < 1000 := by decide +kernel
  generalize (metadata.execute metadata.initial uploadActions.dropLast).get _ = σ at *
  have only : ∀ cid chunk, σ.db.chunks.get? cid = some chunk → cid = 1002 ∧
      chunk = ⟨1001, 0, 1, some 7, .confirmed⟩ := by
    intro cid chunk present
    simpa [rows] using σ.db.chunks.mem_rows_iff.mpr present
  have pages : σ.db.Pages σ.now "owner" 1001 0 [] := by
    refine (Database.pages_empty_iff stored located).mpr fun cid chunk present _ => ?_
    rw [(only cid chunk present).2]
  have replicated : σ.db.Replicated 1001 ⟨"owner", "file", 1, 4, 2, .staging⟩ := by
    intro cid chunk present _
    rw [(only cid chunk present).1]
    exact copies
  exact ⟨σ, run.reachable,
    (status_complete run.reachable stored located rfl early).mp ⟨pages, replicated⟩⟩

/-- The first node is restarted after the `confirm`: no chunk is listed, and
`complete` still fails. -/
theorem status_misleads : ¬∀ σ, Reachable metadata σ → ∀ upload row object,
    σ.db.uploads.get? upload = some row → σ.db.objects.get? row.object = some object →
    row.state = .uploading → σ.now < row.expires →
    (σ.db.Pages σ.now object.owner upload 0 [] ↔
      ∃ db, σ.db.complete σ.now object.owner upload = .ok (.published row.object, db) ∧
        ∃ published, db.objects.get? row.object = some published ∧
          published.state = .published) := by
  let actions := uploadActions.dropLast ++
    [.tick 5, .beat 1 installation 1 111 201 100 100, .register 1 installation]
  intro agree
  have run := metadata.run actions (by decide +kernel)
  let σ := (metadata.execute metadata.initial actions).get (by decide +kernel)
  have stored : σ.db.uploads.get? 1001 = some ⟨1000, .uploading, 1000⟩ := by decide +kernel
  have located : σ.db.objects.get? 1000 = some ⟨"owner", "file", 1, 4, 2, .staging⟩ := by
    decide +kernel
  have page : σ.db.status σ.now "owner" 1001 0 =
      .ok (.status 1000 .uploading 1000 1 4 1 [] none) := by decide +kernel
  obtain ⟨db, completed, _⟩ := (agree σ run.reachable 1001 _ _ stored located rfl
    (by decide +kernel)).mp (.last 0 _ _ _ _ _ _ _ page)
  have refused : (σ.db.complete σ.now "owner" 1001).toOption.isSome = false := by decide +kernel
  simp [completed, Except.toOption] at refused

end FileServer.Metadata
