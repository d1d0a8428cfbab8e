import FileServer.Metadata.Helpers

/-!
# The creation of an upload as one move

`init` inserts the object, the upload and, chunk by chunk, a chunk row with
its reservations.  The loop invariant `Created` describes the tables after a
number of chunks; after the last one it is the move of a creation.
-/

namespace FileServer.Metadata

open FileServer.Relational FileServer.Transition

namespace Database

variable {db db' : Database} {c : Config} {now : Time}

/-- The effect of the rounds of `reserve` over the nodes it chose. -/
structure ReservedOn (db db' : Database) (cid : Ident) (length : Nat)
    (targets : List (NodeId × NodeRow)) : Prop where
  same : SameLife db db'
  tasks : db'.tasks = db.tasks
  rows : ∀ target ∈ targets,
    db'.replicas.get? (cid, target.1) = some ⟨target.2.volume, .reserved, .reserved⟩
  others : ∀ key : Ident × NodeId, (key.1 = cid → key.2 ∉ targets.map Prod.fst) →
    db'.replicas.get? key = db.replicas.get? key
  nodes : NodesKept db db'
  balance : db.lengthOf cid = length →
    (∀ target ∈ targets, ∀ row, db.replicas.get? (cid, target.1) = some row →
      row.charged = .none) → db.Accounted → db'.Accounted

theorem reserveAll_reservedOn (cid : Ident) (length : Nat) (targets : List (NodeId × NodeRow))
    (distinct : (targets.map Prod.fst).Nodup)
    (stored : ∀ target ∈ targets, db.nodes.get? target.1 = some target.2)
    (admitted : ∀ target ∈ targets, target.2.Admits c now length) :
    ReservedOn db (reserveAll cid length targets db) cid length targets := by
  induction targets generalizing db with
  | nil =>
      exact ⟨⟨rfl, rfl, rfl, rfl⟩, rfl, by simp, fun _ _ => rfl, .of_eq rfl,
        fun _ _ accounted => accounted⟩
  | cons target rest inductionHypothesis =>
      rcases target with ⟨nid, node⟩
      simp only [List.map_cons, List.nodup_cons] at distinct
      have first : NodesKept db (db.reserveOn cid nid node.volume length) := by
        rw [reserveOn_eq]
        refine .adjust rfl fun other before => .inr ?_
        obtain rfl := Option.some.inj ((stored (nid, node) (by simp)).symm.trans before)
        have room := (admitted (nid, node) (by simp)).2
        simp only at room ⊢
        omega
      have different : ∀ target ∈ rest, target.1 ≠ nid := by
        rintro target membership rfl
        exact distinct.1 (List.mem_map_of_mem membership)
      have later : ReservedOn (db.reserveOn cid nid node.volume length)
          (reserveAll cid length rest (db.reserveOn cid nid node.volume length)) cid length rest := by
        refine inductionHypothesis distinct.2 (fun target membership => ?_)
          fun target membership => admitted target (by simp [membership])
        rw [reserveOn_eq]
        simp only [Table.get?_modify, if_neg (different target membership)]
        exact stored target (by simp [membership])
      have kept : ∀ key : Ident × NodeId, key ≠ (cid, nid) →
          (db.reserveOn cid nid node.volume length).replicas.get? key = db.replicas.get? key := by
        intro key other
        rw [reserveOn_eq]
        simp only [Table.get?_upsert, if_neg other]
      refine ⟨⟨later.same.objects, later.same.uploads, later.same.chunks, later.same.instances⟩,
        later.tasks, ?_, ?_, first.trans later.nodes, ?_⟩
      · intro target membership
        rcases List.mem_cons.mp membership with rfl | inRest
        · show (reserveAll cid length rest _).replicas.get? (cid, nid) = _
          rw [later.others (cid, nid) fun _ => distinct.1, reserveOn_eq]
          simp only [Table.get?_upsert, if_true]
          cases db.replicas.get? (cid, nid) <;> rfl
        · exact later.rows target inRest
      · intro key outside
        simp only [List.map_cons, List.mem_cons, not_or] at outside
        show (reserveAll cid length rest _).replicas.get? key = _
        rw [later.others key fun same => (outside same).2, kept key]
        rintro rfl
        exact (outside rfl).1 rfl
      · intro sized free accounted
        refine later.balance sized (fun target membership row before => ?_)
          (accounted.reserveOn (free (nid, node) (by simp)) sized)
        rw [kept _ (by simp [different target membership])] at before
        exact free target (by simp [membership]) row before

theorem ReservedOn.count {cid : Ident} {length : Nat} {targets : List (NodeId × NodeRow)}
    (reserved : ReservedOn db db' cid length targets) (distinct : (targets.map Prod.fst).Nodup)
    (empty : ∀ nid, db.replicas.get? (cid, nid) = none) :
    (db'.replicasOf cid).length = targets.length := by
  have keys : ((db'.replicasOf cid).map Prod.fst).Perm (targets.map Prod.fst) := by
    rw [List.perm_ext_iff_of_nodup (db'.replicasOf_nodup cid) distinct]
    intro nid
    constructor
    · intro membership
      obtain ⟨⟨_, row⟩, inRows, rfl⟩ := List.mem_map.mp membership
      by_contra outside
      have stored := db'.mem_replicasOf.mp inRows
      rw [reserved.others _ fun _ => outside, empty] at stored
      cases stored
    · intro membership
      obtain ⟨target, inTargets, rfl⟩ := List.mem_map.mp membership
      exact List.mem_map.mpr ⟨_, db'.mem_replicasOf.mpr (reserved.rows target inTargets), rfl⟩
  simpa using keys.length_eq

structure Opened (db opened : Database) (cid : Ident) (row : ChunkRow) : Prop where
  fresh : db.chunks.get? cid = none
  chunks : ∀ other, opened.chunks.get? other = if other = cid then some row else db.chunks.get? other
  nodes : opened.nodes = db.nodes
  objects : opened.objects = db.objects
  uploads : opened.uploads = db.uploads
  replicas : opened.replicas = db.replicas
  tasks : opened.tasks = db.tasks
  instances : opened.instances = db.instances

theorem Opened.balance {opened : Database} {cid : Ident} {row : ChunkRow}
    (opening : Opened db opened cid row) (empty : ∀ nid, db.replicas.get? (cid, nid) = none)
    (accounted : db.Accounted) : opened.Accounted := by
  have charged : ∀ kind nid, opened.chargedBytes kind nid = db.chargedBytes kind nid := by
    intro kind nid
    unfold chargedBytes
    rw [opening.replicas]
    refine db.replicas.sum_congr fun key replica stored => ?_
    have other : key.1 ≠ cid := by
      rintro rfl
      rw [empty key.2] at stored
      cases stored
    simp only [lengthOf, opening.chunks, if_neg other]
  intro nid node located
  rw [charged, charged]
  exact accounted nid node (opening.nodes ▸ located)

theorem initChunk_ok {size : Nat} {upload : Ident} {ident : Nat → Ident} {seq : Nat}
    (inserted : initChunk c now size upload ident db seq = .ok db') :
    ∃ opened targets, Opened db opened (ident (seq + 2))
        ⟨upload, seq, min c.chunk (size - seq * c.chunk), none, .pending⟩ ∧
      opened.Chosen c now (min c.chunk (size - seq * c.chunk)) [] targets ∧
      targets.length = c.replicas ∧
      db' = reserveAll (ident (seq + 2)) (min c.chunk (size - seq * c.chunk)) targets opened := by
  simp only [initChunk, bind_eq_ok, found_eq_ok, pure_eq_ok, Prod.exists,
    Table.insert?_eq_some] at inserted
  obtain ⟨_, ⟨fresh, rfl⟩, chosen, after, reserved, rfl⟩ := inserted
  obtain ⟨targets, selection, _, counted, rfl⟩ := reserve_ok _ reserved
  exact ⟨{ db with chunks := db.chunks.insertNew _ _ fresh }, targets,
    ⟨fresh, fun other => by simp, rfl, rfl, rfl, rfl, rfl, rfl⟩, selection, counted, rfl⟩

/-- The tables of `init` after its first `count` chunks. -/
structure Created (c : Config) (size : Nat) (upload : Ident) (ident : Nat → Ident)
    (db db' : Database) (count : Nat) : Prop where
  objects : db'.objects = db.objects
  uploads : db'.uploads = db.uploads
  tasks : db'.tasks = db.tasks
  instances : db'.instances = db.instances
  nodes : NodesKept db db'
  chunks : ∀ seq < count, db'.chunks.get? (ident (seq + 2)) =
    some ⟨upload, seq, min c.chunk (size - seq * c.chunk), none, .pending⟩
  freshChunks : ∀ seq < count, db.chunks.get? (ident (seq + 2)) = none
  injective : ∀ i j, i < count → j < count → ident (i + 2) = ident (j + 2) → i = j
  others : ∀ other, (∀ seq < count, other ≠ ident (seq + 2)) →
    db'.chunks.get? other = db.chunks.get? other
  rows : ∀ cid nid, db'.replicas.get? (cid, nid) = db.replicas.get? (cid, nid) ∨
    (db.replicas.get? (cid, nid) = none ∧ (∃ seq < count, cid = ident (seq + 2)) ∧
      ∃ node, db.nodes.get? nid = some node ∧
        db'.replicas.get? (cid, nid) = some ⟨node.volume, .reserved, .reserved⟩)
  counts : ∀ seq < count, (db'.replicasOf (ident (seq + 2))).length = c.replicas
  balance : db.Accounted → db'.Accounted

theorem Created.noRows {size : Nat} {upload : Ident} {ident : Nat → Ident} {count : Nat}
    {origin : Database} (created : Created c size upload ident origin db count)
    (anchored : ∀ cid nid row, origin.replicas.get? (cid, nid) = some row →
      ∃ chunk, origin.chunks.get? cid = some chunk)
    {cid : Ident} (fresh : db.chunks.get? cid = none) (nid : NodeId) :
    db.replicas.get? (cid, nid) = none := by
  have notNew : ∀ seq < count, cid ≠ ident (seq + 2) := by
    rintro seq inRange rfl
    rw [created.chunks seq inRange] at fresh
    cases fresh
  rw [created.others cid notNew] at fresh
  rcases created.rows cid nid with same | ⟨_, ⟨seq, inRange, new⟩, _⟩
  · rw [same]
    by_contra present
    obtain ⟨row, stored⟩ := Option.ne_none_iff_exists'.mp present
    obtain ⟨chunk, located⟩ := anchored cid nid row stored
    rw [fresh] at located
    cases located
  · exact absurd new (notNew seq inRange)

theorem Created.next {size : Nat} {upload : Ident} {ident : Nat → Ident} {count : Nat}
    {origin : Database} (created : Created c size upload ident origin db count)
    (anchored : ∀ cid nid row, origin.replicas.get? (cid, nid) = some row →
      ∃ chunk, origin.chunks.get? cid = some chunk)
    (inserted : initChunk c now size upload ident db count = .ok db') :
    Created c size upload ident origin db' (count + 1) := by
  obtain ⟨opened, targets, opening, selection, counted, final⟩ := initChunk_ok inserted
  have empty := created.noRows anchored opening.fresh
  have notNew : ∀ seq < count, ident (seq + 2) ≠ ident (count + 2) := by
    intro seq inRange same
    have fresh := opening.fresh
    rw [← same, created.chunks seq inRange] at fresh
    cases fresh
  have reserved := reserveAll_reservedOn (ident (count + 2))
    (min c.chunk (size - count * c.chunk)) targets selection.distinct selection.stored
    selection.admitted
  rw [← final] at reserved
  refine ⟨?_, ?_, ?_, ?_, ?_, ?_, ?_, ?_, ?_, ?_, ?_, ?_⟩
  · rw [reserved.same.objects, opening.objects, created.objects]
  · rw [reserved.same.uploads, opening.uploads, created.uploads]
  · rw [reserved.tasks, opening.tasks, created.tasks]
  · rw [reserved.same.instances, opening.instances, created.instances]
  · exact (created.nodes.trans (.of_eq opening.nodes)).trans reserved.nodes
  · intro seq inRange
    rw [reserved.same.chunks, opening.chunks]
    rcases Nat.lt_succ_iff_lt_or_eq.mp inRange with earlier | rfl
    · rw [if_neg (notNew seq earlier), created.chunks seq earlier]
    · rw [if_pos rfl]
  · intro seq inRange
    rcases Nat.lt_succ_iff_lt_or_eq.mp inRange with earlier | rfl
    · exact created.freshChunks seq earlier
    · rw [← created.others _ fun seq inRange same => notNew seq inRange same.symm]
      exact opening.fresh
  · intro i j first second same
    rcases Nat.lt_succ_iff_lt_or_eq.mp first with firstEarlier | rfl
    · rcases Nat.lt_succ_iff_lt_or_eq.mp second with secondEarlier | rfl
      · exact created.injective i j firstEarlier secondEarlier same
      · exact absurd same (notNew i firstEarlier)
    · rcases Nat.lt_succ_iff_lt_or_eq.mp second with secondEarlier | rfl
      · exact absurd same.symm (notNew j secondEarlier)
      · rfl
  · intro other outside
    rw [reserved.same.chunks, opening.chunks, if_neg (outside count (by omega))]
    exact created.others other fun seq inRange => outside seq (by omega)
  · intro cid nid
    by_cases target : cid = ident (count + 2) ∧ nid ∈ targets.map Prod.fst
    · obtain ⟨rfl, membership⟩ := target
      obtain ⟨⟨other, node⟩, inTargets, same⟩ := List.mem_map.mp membership
      simp only at same
      subst other
      have located := selection.stored _ inTargets
      simp only [opening.nodes] at located
      have kept := created.nodes.nodes nid
      rw [located] at kept
      rcases created.rows (ident (count + 2)) nid with same | ⟨_, ⟨seq, inRange, new⟩, _⟩
      · cases before : origin.nodes.get? nid with
        | none => simp [before] at kept
        | some old =>
            rw [before, Option.rel_some_some] at kept
            refine .inr ⟨same ▸ empty nid, ⟨count, by omega, rfl⟩, old, rfl, ?_⟩
            rw [reserved.rows _ inTargets, kept.volume]
      · exact absurd new.symm (notNew seq inRange)
    · have same : db'.replicas.get? (cid, nid) = db.replicas.get? (cid, nid) := by
        rw [reserved.others (cid, nid) fun here membership => target ⟨here, membership⟩,
          opening.replicas]
      rw [same]
      rcases created.rows cid nid with kept | ⟨absent, ⟨seq, inRange, new⟩, node⟩
      · exact .inl kept
      · exact .inr ⟨absent, ⟨seq, by omega, new⟩, node⟩
  · intro seq inRange
    rcases Nat.lt_succ_iff_lt_or_eq.mp inRange with earlier | rfl
    · rw [← created.counts seq earlier]
      refine replicasOf_length_congr fun nid => ?_
      rw [reserved.others _ fun same => absurd same (notNew seq earlier), opening.replicas]
    · rw [reserved.count selection.distinct (by rw [opening.replicas]; exact empty), counted]
  · intro accounted
    refine reserved.balance ?_ ?_ (opening.balance empty (created.balance accounted))
    · simp [lengthOf, opening.chunks]
    · intro target _ row stored
      rw [opening.replicas, empty] at stored
      cases stored

theorem init_ok {owner name : String} {size : Int} {ident : Nat → Ident} {reply : Reply}
    (initialized : init c now db owner size name ident = .ok (reply, db')) :
    ∃ opened, 0 ≤ size ∧ size ≤ c.chunk * c.maxChunks ∧ 0 < name.length ∧ name.length ≤ 255 ∧
      db.objects.get? (ident 0) = none ∧ db.uploads.get? (ident 1) = none ∧
      (∀ other, opened.objects.get? other = if other = ident 0 then
        some ⟨owner, name, size.toNat, c.chunk, c.replicas, .staging⟩ else db.objects.get? other) ∧
      (∀ other, opened.uploads.get? other = if other = ident 1 then
        some ⟨ident 0, .uploading, now + c.ttl⟩ else db.uploads.get? other) ∧
      opened.nodes = db.nodes ∧ opened.chunks = db.chunks ∧ opened.replicas = db.replicas ∧
      opened.tasks = db.tasks ∧ opened.instances = db.instances ∧
      (List.range (chunkCount size.toNat c.chunk)).foldlM
        (initChunk c now size.toNat (ident 1) ident) opened = .ok db' ∧
      reply = .initialized (ident 0) (ident 1) c.chunk (chunkCount size.toNat c.chunk) := by
  simp only [init, bind_eq_ok, require_eq_ok, found_eq_ok, pure_eq_ok, Table.insert?_eq_some,
    Prod.mk.injEq] at initialized
  obtain ⟨_, ⟨positive, bounded⟩, _, ⟨named, short⟩, _, ⟨freshObject, rfl⟩, _, ⟨freshUpload, rfl⟩,
    after, created, rfl, rfl⟩ := initialized
  exact ⟨{ db with objects := db.objects.insertNew _ _ freshObject
                   uploads := db.uploads.insertNew _ _ freshUpload },
    positive, bounded, named, short, freshObject, freshUpload, fun other => by simp,
    fun other => by simp, rfl, rfl, rfl, rfl, rfl, created, rfl⟩

theorem Created.start (size : Nat) (upload : Ident) (ident : Nat → Ident) (db : Database) :
    Created c size upload ident db db 0 where
  objects := rfl
  uploads := rfl
  tasks := rfl
  instances := rfl
  nodes := .of_eq rfl
  chunks := by simp
  freshChunks := by simp
  injective := by simp
  others := fun _ _ => rfl
  rows := fun _ _ => .inl rfl
  counts := by simp
  balance := id

theorem Created.loop {size : Nat} {upload : Ident} {ident : Nat → Ident}
    (anchored : ∀ cid nid row, db.replicas.get? (cid, nid) = some row →
      ∃ chunk, db.chunks.get? cid = some chunk) (count : Nat)
    (inserted : (List.range count).foldlM (initChunk c now size upload ident) db = .ok db') :
    Created c size upload ident db db' count := by
  induction count generalizing db' with
  | zero =>
      simp only [List.range_zero, List.foldlM_nil, pure_eq_ok] at inserted
      exact inserted ▸ .start size upload ident db
  | succ count inductionHypothesis =>
      simp only [List.range_succ, List.foldlM_append, List.foldlM_cons, List.foldlM_nil,
        bind_eq_ok, pure_eq_ok] at inserted
      obtain ⟨middle, earlier, _, last, rfl⟩ := inserted
      exact (inductionHypothesis earlier).next anchored last

/-- The rows that `init` adds, with the loop that reserved their copies. -/
theorem init_creation (consistent : Consistent db) {owner name : String} {size : Int}
    {ident : Nat → Ident} {reply : Reply}
    (initialized : init c now db owner size name ident = .ok (reply, db')) :
    Creation ((List.range (chunkCount size.toNat c.chunk + 2)).map ident) db db'
        (ident 0) (ident 1) ⟨owner, name, size.toNat, c.chunk, c.replicas, .staging⟩
        ⟨ident 0, .uploading, now + c.ttl⟩ (fun seq => ident (seq + 2)) ∧
      ∃ opened, Created c size.toNat (ident 1) ident opened db' (chunkCount size.toNat c.chunk) ∧
        opened.nodes = db.nodes ∧ opened.chunks = db.chunks ∧ opened.replicas = db.replicas ∧
        opened.tasks = db.tasks ∧ opened.instances = db.instances := by
  obtain ⟨opened, _, _, _, _, freshObject, freshUpload, objects, uploads, nodes, chunks, replicas,
    tasks, instances, loop, _⟩ := init_ok initialized
  have created := Created.loop (fun cid nid row stored => by
    rw [chunks]
    exact consistent.replicaChunk cid nid row (replicas ▸ stored)) _ loop
  refine ⟨⟨freshObject, freshUpload, ?_, ?_, rfl, rfl, rfl, c.chunkBounds.1,
    Nat.lt_of_lt_of_le (by decide) c.replicasBounds.1, created.injective,
    ?_, ?_, ?_⟩, opened, created, nodes, chunks, replicas, tasks, instances⟩
  · rw [created.objects]
    exact objects
  · rw [created.uploads]
    exact uploads
  · intro seq inRange
    refine ⟨chunks ▸ created.freshChunks seq inRange, List.mem_map.mpr ⟨seq + 2, ?_, rfl⟩⟩
    simpa using inRange
  · exact fun seq inRange => ⟨created.chunks seq inRange, created.counts seq inRange⟩
  · intro other outside
    rw [created.others other outside, chunks]

theorem init_moves (consistent : Consistent db) {focus : Focus} {owner name : String} {size : Int}
    {ident : Nat → Ident} {reply : Reply}
    (initialized : init c now db owner size name ident = .ok (reply, db')) :
    Moves focus ((List.range (chunkCount size.toNat c.chunk + 2)).map ident) db db' := by
  obtain ⟨creation, opened, created, nodes, chunks, replicas, tasks, instances⟩ :=
    init_creation consistent initialized
  have kept : NodesKept db db' := (NodesKept.of_eq nodes).trans created.nodes
  refine ⟨?_, Moves.tasks_keep (created.tasks.trans tasks), .create _ _ _ _ _ creation,
    .same kept.nodes (created.instances.trans instances),
    fun accounted => created.balance (accounted.congr nodes chunks replicas), kept.budget, ?_⟩
  · intro cid nid
    rcases created.rows cid nid with same | ⟨absent, ⟨seq, inRange, rfl⟩, node, located, stored⟩
    · rw [same, replicas]
      exact .keep _
    · rw [replicas] at absent
      have fresh := (creation.freshChunk seq inRange).1
      have before := (phase_eq_none consistent.linked).mpr fresh
      have after : db'.phase (ident (seq + 2)) = some .staging :=
        phase_eq_some.mpr ⟨_, _, _, created.chunks seq inRange,
          by rw [creation.uploads, if_pos rfl], by rw [creation.objects, if_pos rfl], rfl⟩
      rw [stored, absent]
      refine .reserve none node.volume (by simp) ?_ (by simp [after]) (.inr ⟨after, before⟩)
      have related := kept.nodes nid
      rw [← nodes, located] at related
      cases mounted : db'.nodes.get? nid with
      | none => simp [mounted] at related
      | some node' =>
          rw [mounted, Option.rel_some_some] at related
          exact ⟨node', rfl, related.volume⟩
  · intro cid deleted before
    rcases creation.phase consistent.linked cid with same | ⟨staging, _⟩
    · exact absurd (same ▸ deleted) before
    · simp [staging] at deleted

end Database

end FileServer.Metadata
