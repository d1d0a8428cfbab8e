import FileServer.Metadata.Helpers

/-!
# Retirement as one move

`retire` first deletes the object and then treats its replica rows one by one.
The rows read at the start of the loop have distinct keys, so the charge read
there is still the row's charge when its turn comes.
-/

namespace FileServer.Metadata

open FileServer.Relational FileServer.Transition

def retiredRow (row : ReplicaRow) : ReplicaRow where
  volume := row.volume
  state := if row.state = .gone then .gone else .deleting
  charged := if row.charged = .reserved then .none else row.charged

theorem retiredRow_ended (row : ReplicaRow) : (retiredRow row).Ended := by
  unfold retiredRow ReplicaRow.Ended
  by_cases gone : row.state = .gone <;> simp [gone]

namespace Database

/-- The key of a row read by the loop. -/
def entryKey (entry : Ident × NodeId × Charge × Nat) : Ident × NodeId := (entry.1, entry.2.1)

/-- The row is as the loop read it. -/
def Snapshot (db : Database) (entry : Ident × NodeId × Charge × Nat) : Prop :=
  (∃ row, db.replicas.get? (entryKey entry) = some row ∧ row.charged = entry.2.2.1) ∧
    db.lengthOf entry.1 = entry.2.2.2

/-- The effect of the loop of `retire` over some of its entries. -/
structure Retired (db db' : Database) (entries : List (Ident × NodeId × Charge × Nat)) : Prop where
  same : SameLife db db'
  replicas : ∀ key, db'.replicas.get? key = (db.replicas.get? key).map fun row =>
    if key ∈ entries.map entryKey then retiredRow row else row
  nodes : NodesKept db db'
  tasks : ∀ key, db'.tasks.get? key = db.tasks.get? key ∨
    ((∃ entry ∈ entries, key = ⟨.delete, entry.1, some entry.2.1⟩) ∧
      (∀ old, db.tasks.get? key = some old → old.state = .done) ∧
      ∃ task, db'.tasks.get? key = some task ∧ task.state = .pending)
  cleanup : ∀ entry ∈ entries, db'.Outstanding ⟨.delete, entry.1, some entry.2.1⟩
  balance : db.Accounted → db'.Accounted

variable {db db' : Database} {c : Config} {now : Time}

theorem Retired.refl (db : Database) : Retired db db [] where
  same := ⟨rfl, rfl, rfl, rfl⟩
  replicas := fun key => by simp
  nodes := .of_eq rfl
  tasks := fun _ => .inl rfl
  cleanup := by simp
  balance := id

theorem enqueue_outstanding (now : Time) (kind : TaskKind) (cid : Ident) (nid : Option NodeId)
    (delay : Nat) : (db.enqueue now kind cid nid delay).Outstanding ⟨kind, cid, nid⟩ := by
  rw [enqueue_eq]
  simp only [Outstanding, Table.get?_upsert, if_true, Option.some.injEq, exists_eq_left']
  cases stored : db.tasks.get? ⟨kind, cid, nid⟩ with
  | none => simp
  | some task =>
      by_cases done : task.state = .done <;> simp [done]

theorem enqueue_tasks (now : Time) (kind : TaskKind) (cid : Ident) (nid : Option NodeId)
    (delay : Nat) (key : TaskKey) :
    (db.enqueue now kind cid nid delay).tasks.get? key = db.tasks.get? key ∨
      (key = ⟨kind, cid, nid⟩ ∧ (∀ old, db.tasks.get? key = some old → old.state = .done) ∧
        ∃ task, (db.enqueue now kind cid nid delay).tasks.get? key = some task ∧
          task.state = .pending) := by
  rw [enqueue_eq]
  simp only [Table.get?_upsert]
  by_cases same : key = ⟨kind, cid, nid⟩
  · subst key
    simp only [if_true, true_and]
    cases stored : db.tasks.get? ⟨kind, cid, nid⟩ with
    | none => exact .inr ⟨by simp, _, rfl, rfl⟩
    | some task =>
        by_cases done : task.state = .done
        · exact .inr ⟨by simpa using done, _, rfl, by simp [done]⟩
        · exact .inl (by simp [done])
  · exact .inl (if_neg same)

/-- The reservation is given back first. -/
structure Released (db db' : Database) (cid : Ident) (nid : NodeId) : Prop where
  same : SameLife db db'
  tasks : db'.tasks = db.tasks
  replicas : db'.replicas = db.replicas.modify (cid, nid) fun row =>
    { row with charged := if row.charged = .reserved then .none else row.charged }
  nodes : NodesKept db db'
  balance : db.Accounted → db'.Accounted

theorem release {cid : Ident} {nid : NodeId} {length : Nat} {row : ReplicaRow}
    (stored : db.replicas.get? (cid, nid) = some row) (sized : db.lengthOf cid = length) :
    Released db (if row.charged = .reserved then db.uncharge cid nid length else db) cid nid := by
  by_cases reserved : row.charged = .reserved
  · rw [if_pos reserved]
    refine ⟨db.uncharge_same cid nid length, ?_, ?_, ?_, fun accounted => accounted.uncharge sized⟩ <;>
      rw [uncharge_eq]
    · simp only
      refine db.replicas.modify_congr fun other located => ?_
      obtain rfl := Option.some.inj (stored.symm.trans located)
      rw [if_pos reserved]
    · refine .adjust rfl fun _ _ => .inl ?_
      simp only [owed]
      split <;> split <;> omega
  · rw [if_neg reserved]
    refine ⟨⟨rfl, rfl, rfl, rfl⟩, rfl, ?_, .of_eq rfl, id⟩
    refine (Table.modify_eq_self _ fun other located => ?_).symm
    obtain rfl := Option.some.inj (stored.symm.trans located)
    rw [if_neg reserved]

/-- One round of the loop. -/
theorem retireReplica_retired {entry : Ident × NodeId × Charge × Nat}
    (snapshot : db.Snapshot entry) : Retired db (retireReplica c now db entry) [entry] := by
  rcases entry with ⟨cid, nid, charge, length⟩
  obtain ⟨⟨row, stored, rfl⟩, sized⟩ := snapshot
  simp only [entryKey] at stored sized
  have released := release stored sized
  unfold retireReplica
  simp only
  generalize (if row.charged = .reserved then db.uncharge cid nid length else db) = first at released
  have marked : first.Accounted → (first.modifyReplica cid nid fun row =>
      if row.state ≠ .gone then { row with state := .deleting } else row).Accounted :=
    fun accounted => accounted.modifyReplica _ fun row => by split <;> rfl
  generalize middle : (first.modifyReplica cid nid fun row =>
    if row.state ≠ .gone then { row with state := .deleting } else row) = second at marked
  have same : SameLife db second := by
    rw [← middle]
    exact ⟨released.same.objects, released.same.uploads, released.same.chunks,
      released.same.instances⟩
  have tasks : second.tasks = db.tasks := by rw [← middle, ← released.tasks]; rfl
  have nodes : second.nodes = first.nodes := by rw [← middle]; rfl
  refine ⟨⟨same.objects, same.uploads, same.chunks, same.instances⟩, ?_,
    released.nodes.trans (.of_eq nodes), ?_, ?_,
    fun accounted => (marked (released.balance accounted)).congr rfl rfl rfl⟩
  · intro key
    simp only [enqueue_eq, ← middle, modifyReplica, released.replicas, Table.get?_modify, entryKey,
      List.map_cons, List.map_nil, List.mem_singleton]
    by_cases same : key = (cid, nid)
    · simp only [same, if_true, stored, Option.map_some, Option.some.injEq, retiredRow]
      by_cases gone : row.state = .gone <;> simp [gone]
    · simp [same]
  · intro key
    rw [← tasks]
    rcases enqueue_tasks now .delete cid (some nid) (c.authTtl + 30) key with kept | added
    · exact .inl kept
    · obtain ⟨rfl, done, task⟩ := added
      exact .inr ⟨⟨_, List.mem_singleton_self _, rfl⟩, done, task⟩
  · simp only [List.mem_singleton, forall_eq]
    exact enqueue_outstanding now .delete cid (some nid) _

theorem Outstanding.retired {entries : List (Ident × NodeId × Charge × Nat)} {key : TaskKey}
    (outstanding : db.Outstanding key) (retired : Retired db db' entries) : db'.Outstanding key := by
  obtain ⟨task, stored, active⟩ := outstanding
  rcases retired.tasks key with kept | ⟨_, _, task', stored', pending⟩
  · exact ⟨task, kept.trans stored, active⟩
  · exact ⟨task', stored', by simp [pending]⟩

theorem Snapshot.retired {entries : List (Ident × NodeId × Charge × Nat)}
    {entry : Ident × NodeId × Charge × Nat} (snapshot : db.Snapshot entry)
    (retired : Retired db db' entries) (other : entryKey entry ∉ entries.map entryKey) :
    db'.Snapshot entry := by
  obtain ⟨⟨row, stored, charged⟩, sized⟩ := snapshot
  refine ⟨⟨row, ?_, charged⟩, (lengthOf_eq retired.same.chunks _).trans sized⟩
  rw [retired.replicas, stored, Option.map_some, if_neg other]

theorem Retired.cons {entry : Ident × NodeId × Charge × Nat}
    {entries : List (Ident × NodeId × Charge × Nat)} {middle : Database}
    (first : Retired db middle [entry]) (rest : Retired middle db' entries)
    (other : entryKey entry ∉ entries.map entryKey) : Retired db db' (entry :: entries) where
  same := ⟨rest.same.objects.trans first.same.objects, rest.same.uploads.trans first.same.uploads,
    rest.same.chunks.trans first.same.chunks, rest.same.instances.trans first.same.instances⟩
  replicas := by
    intro key
    rw [rest.replicas, first.replicas, Option.map_map]
    congr 1
    funext row
    simp only [Function.comp_apply, List.map_cons, List.map_nil, List.mem_cons]
    by_cases here : key = entryKey entry
    · subst key
      simp [other]
    · simp only [here, or_false, false_or, List.not_mem_nil, if_false]
  nodes := first.nodes.trans rest.nodes
  tasks := by
    intro key
    rcases rest.tasks key with kept | ⟨⟨entry, membership, same⟩, finished, pending⟩
    · rw [kept]
      rcases first.tasks key with keptFirst | ⟨⟨entry, membership, same⟩, rest⟩
      · exact .inl keptFirst
      · exact .inr ⟨⟨entry, by simp [List.mem_singleton.mp membership], same⟩, rest⟩
    · rcases first.tasks key with keptFirst | ⟨_, _, task, stored, pendingFirst⟩
      · exact .inr ⟨⟨entry, by simp [membership], same⟩,
          fun old before => finished old (keptFirst.trans before), pending⟩
      · simp [finished task stored] at pendingFirst
  cleanup := by
    intro target membership
    rcases List.mem_cons.mp membership with rfl | later
    · exact (first.cleanup target (by simp)).retired rest
    · exact rest.cleanup target later
  balance := fun accounted => rest.balance (first.balance accounted)

theorem retireLoop_retired (c : Config) (now : Time) (entries : List (Ident × NodeId × Charge × Nat))
    (distinct : (entries.map entryKey).Nodup) (snapshots : ∀ entry ∈ entries, db.Snapshot entry) :
    Retired db (entries.foldl (retireReplica c now) db) entries := by
  induction entries generalizing db with
  | nil => exact .refl db
  | cons entry rest inductionHypothesis =>
      simp only [List.map_cons, List.nodup_cons] at distinct
      have first : Retired db (retireReplica c now db entry) [entry] :=
        retireReplica_retired (snapshots entry (by simp))
      refine first.cons (inductionHypothesis distinct.2 fun other membership => ?_) distinct.1
      refine (snapshots other (by simp [membership])).retired first ?_
      simp only [List.map_cons, List.map_nil, List.mem_singleton]
      intro same
      exact distinct.1 (same ▸ List.mem_map_of_mem membership)

theorem mem_uploadReplicas {upload : Ident} {entry : Ident × NodeId × Charge × Nat} :
    entry ∈ db.uploadReplicas upload ↔ ∃ row chunk,
      db.replicas.get? (entryKey entry) = some row ∧ db.chunks.get? entry.1 = some chunk ∧
      chunk.upload = upload ∧ entry.2.2 = (row.charged, chunk.length) := by
  simp only [uploadReplicas, List.mem_filterMap, Option.bind_eq_some_iff, Prod.exists]
  constructor
  · rintro ⟨cid, nid, row, stored, chunk, located, selected⟩
    split at selected
    · next owned =>
        cases selected
        exact ⟨row, chunk, db.replicas.mem_rows_iff.mp stored, located, owned, rfl⟩
    · cases selected
  · rintro ⟨row, chunk, stored, located, owned, rest⟩
    rcases entry with ⟨cid, nid, _⟩
    simp only at rest
    subst rest
    exact ⟨cid, nid, row, db.replicas.mem_rows_iff.mpr stored, chunk, located, by simp [owned]⟩

theorem uploadReplicas_nodup (upload : Ident) :
    ((db.uploadReplicas upload).map entryKey).Nodup := by
  refine db.replicas.keysNodup.sublist ?_
  unfold uploadReplicas
  generalize db.replicas.rows = rows
  induction rows with
  | nil => simp
  | cons entry rest inductionHypothesis =>
      rw [List.filterMap_cons]
      split
      · simpa using inductionHypothesis.cons _
      · next selected equality =>
          obtain ⟨chunk, _, chosen⟩ := Option.bind_eq_some_iff.mp equality
          split at chosen
          · cases chosen
            simpa [entryKey] using inductionHypothesis
          · cases chosen

/-- The tables after the two updates before the loop. -/
def closeUpload (db : Database) (upload oid : Ident) (state : UploadState) : Database :=
  { db with
    uploads := db.uploads.modify upload fun row => { row with state }
    objects := db.objects.modify oid fun object => { object with state := .deleted } }

structure Retirement (db looped db' : Database) (upload : Ident) (row : UploadRow)
    (state : UploadState) : Prop where
  stored : db.uploads.get? upload = some row
  loop : Retired (db.closeUpload upload row.object state) looped (db.uploadReplicas upload)
  same : SameLife looped db'
  nodes : db'.nodes = looped.nodes
  replicas : db'.replicas = looped.replicas
  tasks : ∀ key, db'.tasks.get? key = (looped.tasks.get? key).map fun task =>
    if key.kind = .repair ∧ db.Concerns upload key then
      { task with state := .done, token := none, lease := 0 }
    else task

theorem retire_eq (c : Config) (now : Time) {upload : Ident} {row : UploadRow}
    (stored : db.uploads.get? upload = some row) (state : UploadState) :
    retire c now db upload state =
      { (db.uploadReplicas upload).foldl (retireReplica c now)
          (db.closeUpload upload row.object state) with
        tasks := ((db.uploadReplicas upload).foldl (retireReplica c now)
          (db.closeUpload upload row.object state)).tasks.mapRows fun key task =>
            if key.kind = .repair ∧ ((db.uploadReplicas upload).foldl (retireReplica c now)
              (db.closeUpload upload row.object state)).Concerns upload key then
              { task with state := .done, token := none, lease := 0 }
            else task } := by
  unfold retire
  simp only [Table.get?_modify_self, stored, Option.map_some]
  rfl

theorem retire_ok (c : Config) (now : Time) {upload : Ident} {row : UploadRow}
    (stored : db.uploads.get? upload = some row) (state : UploadState) :
    ∃ looped, Retirement db looped (retire c now db upload state) upload row state := by
  have loop : Retired (db.closeUpload upload row.object state)
      ((db.uploadReplicas upload).foldl (retireReplica c now)
        (db.closeUpload upload row.object state)) (db.uploadReplicas upload) := by
    refine retireLoop_retired c now _ (db.uploadReplicas_nodup upload) fun entry membership => ?_
    obtain ⟨replica, chunk, present, located, _, rest⟩ := mem_uploadReplicas.mp membership
    refine ⟨⟨replica, present, by rw [rest]⟩, ?_⟩
    rw [rest]
    exact lengthOf_of_stored located
  refine ⟨_, stored, loop, ?_, ?_, ?_, ?_⟩ <;> rw [retire_eq c now stored]
  · exact ⟨rfl, rfl, rfl, rfl⟩
  · intro key
    have concerns : ((db.uploadReplicas upload).foldl (retireReplica c now)
        (db.closeUpload upload row.object state)).Concerns upload key ↔ db.Concerns upload key := by
      unfold Concerns
      rw [loop.same.chunks]
      rfl
    simp only [Table.get?_mapRows, concerns]

namespace Retirement

variable {looped : Database} {upload : Ident} {row : UploadRow} {state : UploadState}
  (retirement : Retirement db looped db' upload row state)
include retirement

theorem objects : db'.objects =
    db.objects.modify row.object fun object => { object with state := .deleted } :=
  retirement.same.objects.trans retirement.loop.same.objects

theorem uploads : db'.uploads = db.uploads.modify upload fun row => { row with state } :=
  retirement.same.uploads.trans retirement.loop.same.uploads

theorem chunks : db'.chunks = db.chunks :=
  retirement.same.chunks.trans retirement.loop.same.chunks

theorem get?_replicas (cid : Ident) (nid : NodeId) :
    db'.replicas.get? (cid, nid) = (db.replicas.get? (cid, nid)).map fun row =>
      if ∃ chunk ∈ db.chunks.get? cid, chunk.upload = upload then retiredRow row else row := by
  rw [retirement.replicas, retirement.loop.replicas]
  show Option.map _ (db.replicas.get? (cid, nid)) = _
  cases stored : db.replicas.get? (cid, nid) with
  | none => rfl
  | some replica =>
      have listed : (cid, nid) ∈ (db.uploadReplicas upload).map entryKey ↔
          ∃ chunk ∈ db.chunks.get? cid, chunk.upload = upload := by
        constructor
        · intro membership
          obtain ⟨entry, inList, same⟩ := List.mem_map.mp membership
          obtain ⟨_, chunk, _, located, owned, _⟩ := mem_uploadReplicas.mp inList
          obtain ⟨rfl, _⟩ := Prod.mk.inj same
          exact ⟨chunk, located, owned⟩
        · rintro ⟨chunk, located, owned⟩
          exact List.mem_map.mpr ⟨(cid, nid, replica.charged, chunk.length),
            mem_uploadReplicas.mpr ⟨replica, chunk, stored, located, owned, rfl⟩, rfl⟩
      simp only [Option.map_some, listed]

theorem phase {cid : Ident} {chunk : ChunkRow} {object : ObjectRow}
    (located : db.chunks.get? cid = some chunk) (owned : chunk.upload = upload)
    (found : db.objects.get? row.object = some object) : db'.phase cid = some .deleted := by
  refine phase_eq_some.mpr ⟨chunk, { row with state }, { object with state := .deleted },
    by rw [retirement.chunks, located], ?_, ?_, rfl⟩
  · rw [retirement.uploads, owned, Table.get?_modify_self, retirement.stored]
    rfl
  · rw [retirement.objects, Table.get?_modify_self, found]
    rfl

theorem task {key : TaskKey} : db'.tasks.get? key = db.tasks.get? key ∨
    (key.kind = .delete ∧ (∃ chunk, db.chunks.get? key.chunk = some chunk ∧
      chunk.upload = upload) ∧ (∀ old, db.tasks.get? key = some old → old.state = .done) ∧
      ∃ task, db'.tasks.get? key = some task ∧ task.state = .pending) ∨
    (key.kind = .repair ∧ db.Concerns upload key ∧ ∃ old, db.tasks.get? key = some old ∧
      db'.tasks.get? key = some { old with state := .done, token := none, lease := 0 }) := by
  have looped := retirement.loop.tasks key
  rw [retirement.tasks]
  by_cases fenced : key.kind = .repair ∧ db.Concerns upload key
  · rcases looped with kept | ⟨⟨entry, _, same⟩, _⟩
    · cases stored : db.tasks.get? key with
      | none =>
          have absent : db.tasks.get? key = none := stored
          exact .inl (by rw [kept]; simp [closeUpload, absent])
      | some old =>
          refine .inr (.inr ⟨fenced.1, fenced.2, old, rfl, ?_⟩)
          rw [kept]
          simp [closeUpload, stored, fenced]
    · simp [same] at fenced
  · simp only [fenced, if_false, Option.map_id']
    rcases looped with kept | added
    · exact .inl kept
    · obtain ⟨⟨entry, membership, rfl⟩, rest⟩ := added
      obtain ⟨_, chunk, _, located, owned, _⟩ := mem_uploadReplicas.mp membership
      exact .inr (.inl ⟨rfl, ⟨chunk, located, owned⟩, rest⟩)

theorem moves (consistent : Consistent db) (terminal : state = .cancelled ∨ state = .expired)
    {focus : Focus} {drawn : List Ident} : Moves focus drawn db db' where
  rows := by
    intro cid nid
    rw [retirement.get?_replicas]
    cases stored : db.replicas.get? (cid, nid) with
    | none => exact .keep none
    | some replica =>
        rw [Option.map_some]
        by_cases owned : ∃ chunk ∈ db.chunks.get? cid, chunk.upload = upload
        · rw [if_pos owned]
          obtain ⟨chunk, located, owner⟩ := owned
          obtain ⟨object, found⟩ := consistent.linked.uploadObject _ row retirement.stored
          refine .retire replica (retirement.phase located owner found) ?_
          obtain ⟨task, pending, active⟩ := retirement.loop.cleanup
            (cid, nid, replica.charged, chunk.length)
            (mem_uploadReplicas.mpr ⟨replica, chunk, stored, located, owner, rfl⟩)
          refine ⟨task, ?_, active⟩
          rw [retirement.tasks, pending]
          rfl
        · rw [if_neg owned]
          exact .keep _
  tasks := by
    intro key
    obtain ⟨object, found⟩ := consistent.linked.uploadObject _ row retirement.stored
    rcases retirement.task with
      kept | ⟨deletes, ⟨chunk, located, owned⟩, finished, task, stored, pending⟩ |
      ⟨repairs, ⟨chunk, located, owned⟩, old, stored, fenced⟩
    · rw [kept]
      exact .keep _
    · rw [stored]
      exact .enqueue _ task finished pending
        (.inl (by simp [retirement.phase located owned found])) (by simp [deletes])
    · rw [stored, fenced]
      exact .finish old _ rfl (by simp [repairs])
        fun _ => .inr (.inl (retirement.phase located owned found))
  life := .retire upload row state retirement.stored terminal retirement.objects
    retirement.uploads retirement.chunks
  nodes := .same (retirement.loop.nodes.trans (.of_eq retirement.nodes)).nodes
    (retirement.same.instances.trans retirement.loop.same.instances)
  balance := fun accounted => (retirement.loop.balance (accounted.congr rfl rfl rfl)).congr
    retirement.nodes retirement.same.chunks retirement.replicas
  budget := (retirement.loop.nodes.trans (.of_eq retirement.nodes)).budget
  newlyDeleted := by
    intro cid deleted before
    obtain ⟨chunk, _, _, located, _⟩ := phase_eq_some.mp deleted
    rw [retirement.chunks] at located
    have owned : chunk.upload = upload := by
      by_contra other
      exact before (phase_of_other consistent.linked retirement.stored retirement.objects
        retirement.uploads retirement.chunks located other ▸ deleted)
    constructor
    · intro nid replica stored
      rw [retirement.get?_replicas] at stored
      obtain ⟨old, _, rfl⟩ := Option.map_eq_some_iff.mp stored
      rw [if_pos ⟨chunk, located, owned⟩]
      exact retiredRow_ended old
    · rintro key task stored repairs rfl
      rw [retirement.tasks] at stored
      obtain ⟨old, _, rfl⟩ := Option.map_eq_some_iff.mp stored
      have concerned : db.Concerns upload key := ⟨chunk, located, owned⟩
      simp [repairs, concerned]

end Retirement

theorem retire_moves (consistent : Consistent db) {focus : Focus} {drawn : List Ident}
    {upload : Ident} {row : UploadRow} {state : UploadState}
    (stored : db.uploads.get? upload = some row)
    (terminal : state = .cancelled ∨ state = .expired) :
    Moves focus drawn db (retire c now db upload state) := by
  obtain ⟨looped, retirement⟩ := retire_ok c now stored state
  exact retirement.moves consistent terminal

end Database

end FileServer.Metadata
