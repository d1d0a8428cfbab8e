import FileServer.Metadata.Helpers

/-!
# The background transactions as moves

Each transaction of a task is inverted once: what its guards established and
the tables it leaves.  From there it is a sequence of moves.
-/

namespace FileServer.Metadata

open FileServer.Relational FileServer.Transition

structure Deletion.Known (db : Database) (cid : Ident) (deletion : Deletion) : Prop where
  sized : ∀ length, deletion.length = some length → ∃ chunk state,
    db.chunks.get? cid = some chunk ∧ chunk.length = length ∧
      db.phase cid = some state ∧ state ≠ .staging
  unknown : deletion.length = none → db.chunks.get? cid = none
  seen : db.Seen deletion.node deletion.inst

/-- What a repair knows of its chunk and target between its transactions. -/
structure Repair.Known (db : Database) (cid : Ident) (repair : Repair) : Prop where
  chunk : ∃ chunk upload object, db.chunks.get? cid = some chunk ∧ chunk.length = repair.length ∧
    chunk.sha = repair.sha ∧ chunk.upload = repair.upload ∧
    db.uploads.get? repair.upload = some upload ∧ upload.object = repair.object ∧
    db.objects.get? repair.object = some object ∧ object.replicas = repair.required ∧
    object.state ≠ .staging
  seen : db.Seen repair.target repair.inst

theorem Deletion.Known.grown {db db' : Database} {drawn : List Ident} {cid : Ident}
    {deletion : Deletion} (known : deletion.Known db cid) (grown : Grown drawn db db')
    (issued : cid ∉ drawn) : deletion.Known db' cid where
  sized := by
    intro length same
    obtain ⟨chunk, state, stored, sized, phase, opened⟩ := known.sized length same
    obtain ⟨chunk', stored', kept, _⟩ := grown.chunks cid chunk stored
    obtain ⟨state', phase', _⟩ := grown.phase phase
    refine ⟨chunk', state', stored', kept.length.trans sized, phase', ?_⟩
    rintro rfl
    exact grown.phase_ne_staging phase opened phase'
  unknown := fun none => grown.absent cid (known.unknown none) issued
  seen := grown.seen _ _ known.seen

theorem Repair.Known.grown {db db' : Database} {drawn : List Ident} {cid : Ident}
    {repair : Repair} (known : repair.Known db cid) (grown : Grown drawn db db') :
    repair.Known db' cid where
  chunk := by
    obtain ⟨chunk, upload, object, stored, sized, sha, owner, owned, located, found, required,
      opened⟩ := known.chunk
    have phase : db.phase cid = some object.state :=
      Database.phase_of_object stored (owner ▸ owned) (located ▸ found)
    obtain ⟨chunk', stored', _, frozen⟩ := grown.chunks cid chunk stored
    obtain rfl := frozen _ phase opened
    obtain ⟨upload', owned', same⟩ := grown.uploads _ upload owned
    obtain ⟨object', found', kept⟩ := grown.objects _ object found
    refine ⟨chunk', upload', object', stored', sized, sha, owner, owned', same.trans located,
      found', kept.replicas.trans required, ?_⟩
    have advances := kept.advances
    intro staging
    rw [staging] at advances
    generalize object.state = state at advances opened
    cases advances
    exact opened rfl
  seen := grown.seen _ _ known.seen

namespace Database

variable {db db' : Database} {c : Config} {now : Time} {focus : Focus} {drawn : List Ident}

theorem Fence.outstanding {job : Job} (fenced : db.Fence now job) : db.Outstanding job.task := by
  obtain ⟨row, stored, _, running, _⟩ := fenced
  exact ⟨row, stored, by simp [running]⟩

theorem nextTask_eq_some {task : TaskKey} (due : db.nextTask now = some task) :
    ∃ row, db.tasks.get? task = some row ∧ row.state ≠ .done ∧ row.lease < now := by
  simp only [nextTask, Option.map_eq_some_iff] at due
  obtain ⟨⟨_, row⟩, first, rfl⟩ := due
  have membership := List.mem_of_mem_head? first
  simp only [List.mem_insertionSort, List.mem_filter, decide_eq_true_eq] at membership
  exact ⟨row, db.tasks.mem_rows_iff.mp membership.1, membership.2⟩

def claimed (c : Config) (now : Time) (token : Ident) (row : TaskRow) : TaskRow :=
  { row with
    state := .running, lease := now + c.lease, token := some token, attempts := row.attempts + 1 }

theorem claim_moves {task : TaskKey} {row : TaskRow} (token : Ident)
    (stored : db.tasks.get? task = some row) (due : row.state ≠ .done) :
    Moves (.claim task (claimed c now token row)) drawn db (db.claim c now task token) := by
  refine Moves.ofTask (claimed c now token) fun other located => ?_
  obtain rfl := Option.some.inj (stored.symm.trans located)
  exact .claim row _ rfl due rfl

theorem failTask_moves (job : Job) (reason : String) :
    Moves focus drawn db (db.failTask now job reason) := by
  refine Moves.ofTask _ fun row stored => ?_
  split
  · next owned => exact .fail row _ owned.2 rfl rfl
  · exact .keep _

theorem finishTask_moves {job : Job}
    (cleaned : ∀ nid, job.task.kind = .delete → job.task.node = some nid →
      ∀ replica, db.replicas.get? (job.task.chunk, nid) = some replica → replica.state ≠ .deleting)
    (repaired : job.task.kind = .repair → focus = .exit job.task ∨
      db.phase job.task.chunk = some .deleted ∨
      ∀ nid replica, db.replicas.get? (job.task.chunk, nid) = some replica →
        replica.state ≠ .reserved)
    (f : TaskRow → TaskRow) (done : ∀ row, (f row).state = .done) :
    Moves focus drawn db (db.modifyTask job.task fun row =>
      if row.token = some job.token then f row else row) := by
  refine Moves.ofTask _ fun row stored => ?_
  split
  · exact .finish row _ (done row) cleaned repaired
  · exact .keep _

/-- What the first transaction of a deletion establishes. -/
theorem deleteBegin_ok {job : Job} {deletion : Deletion}
    (begun : db.deleteBegin c now job = .ok (deletion, db')) :
    ∃ nid node, db.Fence now job ∧ job.task.node = some nid ∧ db.nodes.get? nid = some node ∧
      (∀ known, db.chunkObject job.task.chunk = some known → known.2.2.2.state ≠ .deleted →
        known.2.2.2.state = .published ∧
        (∀ replica, db.replicas.get? (job.task.chunk, nid) = some replica → ¬Protected replica) ∧
        known.2.2.2.replicas ≤ (healthy c now db job.task.chunk).length) ∧
      deletion = ⟨nid, node.address, node.inst, node.volume,
        (db.chunkObject job.task.chunk).map fun known => known.1.length⟩ ∧
      db' = db.modifyReplica job.task.chunk nid fun row => { row with state := .deleting } := by
  simp only [deleteBegin, fence, bind_eq_ok, require_eq_ok, found_eq_ok, pure_eq_ok,
    Prod.mk.injEq, Option.mem_def] at begun
  obtain ⟨_, fenced, nid, target, node, located, _, guarded, rfl, rfl⟩ := begun
  exact ⟨nid, node, fenced, target, located, guarded, rfl, rfl⟩

theorem deleteBegin_known (consistent : Consistent db) {job : Job} {deletion : Deletion}
    (begun : db.deleteBegin c now job = .ok (deletion, db')) :
    job.task.node = some deletion.node ∧ deletion.Known db job.task.chunk := by
  obtain ⟨nid, node, fenced, target, located, guarded, rfl, rfl⟩ := deleteBegin_ok begun
  refine ⟨target, ?_, ?_, .inl ⟨node, located, rfl⟩⟩
  · intro length same
    obtain ⟨⟨chunk, upload, oid, object⟩, known, rfl⟩ := Option.map_eq_some_iff.mp same
    obtain ⟨stored, owned, rfl, found⟩ := db.chunkObject_eq_some.mp known
    refine ⟨chunk, object.state, stored, rfl, phase_of_object stored owned found, ?_⟩
    by_cases deleted : object.state = .deleted
    · simp [deleted]
    · rw [(guarded _ known deleted).1]
      simp
  · intro unknown
    have absent := Option.map_eq_none_iff.mp unknown
    exact (phase_eq_none consistent.linked).mp (by simp [phase, absent])

theorem deleteBegin_unprotected (consistent : Consistent db) {job : Job} {deletion : Deletion}
    (begun : db.deleteBegin c now job = .ok (deletion, db')) {row : ReplicaRow}
    (stored : db.replicas.get? (job.task.chunk, deletion.node) = some row) : ¬Protected row := by
  obtain ⟨nid, node, _, _, _, guarded, rfl, _⟩ := deleteBegin_ok begun
  obtain ⟨chunk, present⟩ := consistent.replicaChunk _ _ row stored
  obtain ⟨upload, owned⟩ := consistent.linked.chunkUpload _ chunk present
  obtain ⟨object, found⟩ := consistent.linked.uploadObject _ upload owned
  have known := db.chunkObject_eq_some.mpr ⟨present, owned, rfl, found⟩
  by_cases deleted : object.state = .deleted
  · have ended := consistent.ended _ nid row (deleted ▸ phase_of_object present owned found) stored
    rcases ended with state | state <;> simp [Protected, state]
  · exact (guarded _ known deleted).2.1 row stored

theorem deleteBegin_moves (consistent : Consistent db) {job : Job} {deletion : Deletion}
    (deletes : job.task.kind = .delete) (begun : db.deleteBegin c now job = .ok (deletion, db')) :
    Moves focus drawn db db' := by
  have unprotected : ∀ row, db.replicas.get? (job.task.chunk, deletion.node) = some row →
      ¬Protected row := fun _ stored => deleteBegin_unprotected consistent begun stored
  obtain ⟨nid, node, fenced, target, located, guarded, rfl, rfl⟩ := deleteBegin_ok begun
  refine Moves.ofMark _ (fun _ => rfl) fun row stored => .delete row (unprotected row stored) ?_
  have same : job.task = ⟨.delete, job.task.chunk, some nid⟩ := by
    rw [← deletes, ← target]
  exact same ▸ fenced.outstanding

/-- What the second transaction of a deletion establishes. -/
theorem deleteCommit_ok {job : Job} {deletion : Deletion}
    (committed : db.deleteCommit now job deletion = .ok db') :
    ∃ node uncharged, db.Fence now job ∧ db.nodes.get? deletion.node = some node ∧
      node.inst = deletion.inst ∧ node.volume = deletion.volume ∧
      uncharged = deletion.length.elim db (db.uncharge job.task.chunk deletion.node) ∧
      db' = (uncharged.modifyReplica job.task.chunk deletion.node fun row =>
        if row.state = .deleting then { row with state := .gone } else row).finishTask job := by
  simp only [deleteCommit, fence, bind_eq_ok, require_eq_ok, found_eq_ok, pure_eq_ok] at committed
  obtain ⟨_, fenced, node, located, _, ⟨inst, volume⟩, rfl⟩ := committed
  refine ⟨node, _, fenced, located, inst, volume, rfl, ?_⟩
  cases deletion.length <;> rfl

theorem uncharge_row {cid : Ident} {nid : NodeId} {length : Nat} {row : ReplicaRow}
    (stored : (db.uncharge cid nid length).replicas.get? (cid, nid) = some row) :
    ∃ old, db.replicas.get? (cid, nid) = some old ∧ row = { old with charged := .none } := by
  rw [uncharge_eq] at stored
  simp only [Table.get?_modify_self, Option.map_eq_some_iff] at stored
  obtain ⟨old, before, rfl⟩ := stored
  exact ⟨old, before, rfl⟩

theorem deleteCommit_steps (consistent : Consistent db) {job : Job} {deletion : Deletion}
    (deletes : job.task.kind = .delete) (target : job.task.node = some deletion.node)
    (known : deletion.Known db job.task.chunk)
    (committed : db.deleteCommit now job deletion = .ok db') : Steps focus drawn db db' := by
  obtain ⟨node, uncharged, fenced, located, _, _, settled, rfl⟩ := deleteCommit_ok committed
  have given : Steps focus drawn db uncharged ∧
      ∀ row, uncharged.replicas.get? (job.task.chunk, deletion.node) = some row →
        row.charged = .none := by
    cases sized : deletion.length with
    | none =>
        simp only [sized, Option.elim_none] at settled
        subst uncharged
        refine ⟨.refl, fun row stored => ?_⟩
        obtain ⟨chunk, present⟩ := consistent.replicaChunk _ _ row stored
        rw [known.unknown sized] at present
        cases present
    | some length =>
        simp only [sized, Option.elim_some] at settled
        subst uncharged
        obtain ⟨chunk, state, stored, rfl, phase, opened⟩ := known.sized length sized
        refine ⟨.single (Moves.uncharge (lengthOf_of_stored stored) ?_), ?_⟩
        · intro row present reserved
          cases state with
          | staging => exact absurd rfl opened
          | published => exact phase
          | deleted =>
              rcases consistent.ended _ _ row phase present with ended | ended <;>
                simp [ended] at reserved
        · intro row present
          obtain ⟨old, _, rfl⟩ := uncharge_row present
          rfl
  obtain ⟨steps, free⟩ := given
  refine (steps.tail (Moves.ofMark _ (fun row => by split <;> rfl) fun row stored => ?_)).tail
    (finishTask_moves ?_ ?_ _ fun _ => rfl)
  · by_cases deleting : row.state = .deleting
    · have same : ({ row with state := .gone } : ReplicaRow) =
          { row with state := .gone, charged := .none } := by rw [← free row stored]
      rw [if_pos deleting, same]
      exact .vanish row deleting
    · rw [if_neg deleting]
      exact .keep _
  · intro nid _ same row stored
    obtain rfl := Option.some.inj (same.symm.trans target)
    simp only [modifyReplica, Table.get?_modify_self, Option.map_eq_some_iff] at stored
    obtain ⟨old, _, rfl⟩ := stored
    split
    · simp
    · next other => exact other
  · simp [deletes]

/-- The first transaction of a repair that copies: an old reservation is used
again, or a node without a live row is reserved. -/
structure Targeted (c : Config) (now : Time) (db db' : Database) (cid : Ident) (length : Nat)
    (target : NodeId) : Prop where
  choice : (∃ row, db.replicas.get? (cid, target) = some row ∧ row.state = .reserved ∧ db' = db) ∨
    ((∀ nid row, db.replicas.get? (cid, nid) = some row → row.state ≠ .reserved) ∧
      (∀ row, db.replicas.get? (cid, target) = some row → row.state = .gone) ∧
      ∃ node, db.nodes.get? target = some node ∧ node.Admits c now length ∧
        db' = db.reserveOn cid target node.volume length)
  live : ∃ node, db'.nodes.get? target = some node ∧ node.Alive c now

theorem repairBegin_ok {job : Job} {result : Option Repair}
    (begun : db.repairBegin c now job = .ok (result, db')) :
    ∃ chunk upload object, db.Fence now job ∧ db.chunks.get? job.task.chunk = some chunk ∧
      db.uploads.get? chunk.upload = some upload ∧
      db.objects.get? upload.object = some object ∧ object.state = .published ∧
      ((object.replicas ≤ (healthy c now db job.task.chunk).length ∧ result = none ∧
          db' = db.finishTask job) ∨
        ((healthy c now db job.task.chunk).length < object.replicas ∧
          healthy c now db job.task.chunk ≠ [] ∧
          ∃ target node, Targeted c now db db' job.task.chunk chunk.length target ∧
            db'.nodes.get? target = some node ∧
            result = some ⟨chunk.length, chunk.sha, chunk.upload, upload.object, object.replicas,
              healthy c now db job.task.chunk, target, node.address, node.volume, node.inst⟩)) := by
  simp only [repairBegin, fence, bind_eq_ok, require_eq_ok, found_eq_ok, Prod.exists] at begun
  obtain ⟨_, fenced, chunk, upload, oid, object, known, _, published, begun⟩ := begun
  obtain ⟨stored, owned, rfl, found⟩ := db.chunkObject_eq_some.mp known
  refine ⟨chunk, upload, object, fenced, stored, owned, found, published, ?_⟩
  split at begun
  · next enough =>
      simp only [pure_eq_ok, Prod.mk.injEq] at begun
      exact .inl ⟨enough, begun.1.symm, begun.2.symm⟩
  next few =>
    simp only [repairTarget, bind_eq_ok, require_eq_ok, pure_eq_ok, Prod.exists,
      Prod.mk.injEq] at begun
    obtain ⟨repair, after, ⟨_, sources, selected⟩, rfl, rfl⟩ := begun
    refine .inr ⟨not_le.mp few, sources, ?_⟩
    split at selected
    · next pending search =>
        simp only [bind_eq_ok, require_eq_ok, found_eq_ok, pure_eq_ok, Prod.exists,
          Prod.mk.injEq] at selected
        obtain ⟨_, _, ⟨rfl, rfl⟩, node, located, _, alive, rfl, rfl⟩ := selected
        have reserved := List.find?_some search
        simp only [decide_eq_true_eq] at reserved
        exact ⟨pending.1, node, ⟨.inl ⟨pending.2,
          db.mem_replicasOf.mp (List.mem_of_find?_eq_some search), reserved, rfl⟩,
          node, located, alive⟩, located, rfl⟩
    · next search =>
        simp only [bind_eq_ok, require_eq_ok, found_eq_ok, pure_eq_ok, Prod.exists,
          Prod.mk.injEq] at selected
        obtain ⟨nodes, reserved, taken, first, head, _, _, ⟨rfl, rfl⟩, node, located, _, alive, rfl,
          rfl⟩ := selected
        obtain ⟨targets, selection, rfl, counted, rfl⟩ := db.reserve_ok taken
        obtain ⟨⟨nid, picked⟩, rfl⟩ := List.length_eq_one_iff.mp counted
        simp only [List.map_cons, List.map_nil, List.head?_cons, Option.some.injEq] at head
        subst first
        refine ⟨nid, node, ⟨.inr ⟨?_, ?_, picked, ?_, ?_, rfl⟩, node, located, alive⟩, located, rfl⟩
        · intro other row stored reservedRow
          have := List.find?_eq_none.mp search (other, row) (db.mem_replicasOf.mpr stored)
          simp [reservedRow] at this
        · intro row stored
          by_contra live
          refine selection.outside (nid, picked) (by simp) ?_
          refine List.mem_map.mpr ⟨(nid, row), List.mem_filter.mpr ⟨?_, by simpa using live⟩, rfl⟩
          exact db.mem_replicasOf.mpr stored
        · exact selection.stored (nid, picked) (by simp)
        · exact selection.admitted (nid, picked) (by simp)

theorem Fence.repairing (consistent : Consistent db) {job : Job} (fenced : db.Fence now job)
    (repairs : job.task.kind = .repair) : job.task = ⟨.repair, job.task.chunk, none⟩ := by
  obtain ⟨row, stored, _⟩ := fenced
  rw [← repairs, ← consistent.unassigned _ row stored repairs]

theorem repairBegin_exit {job : Job} (repairs : job.task.kind = .repair)
    (begun : db.repairBegin c now job = .ok (none, db')) :
    Moves (.exit job.task) drawn db db' := by
  obtain ⟨chunk, upload, object, fenced, stored, owned, found, published, outcome⟩ :=
    repairBegin_ok begun
  rcases outcome with ⟨_, _, rfl⟩ | ⟨_, _, target, node, _, _, result⟩
  · exact finishTask_moves (by simp [repairs]) (fun _ => .inl rfl) _ fun _ => rfl
  · cases result

theorem repairBegin_copy (consistent : Consistent db) {job : Job} {repair : Repair}
    (repairs : job.task.kind = .repair)
    (begun : db.repairBegin c now job = .ok (some repair, db')) : Steps focus drawn db db' := by
  obtain ⟨chunk, upload, object, fenced, stored, owned, found, published, outcome⟩ :=
    repairBegin_ok begun
  rcases outcome with ⟨_, result, _⟩ | ⟨_, _, target, node, targeted, located, result⟩
  · cases result
  · rcases targeted.choice with ⟨_, _, _, rfl⟩ | ⟨alone, free, picked, before, admits, rfl⟩
    · exact .refl
    · exact .single (Moves.reserveOn consistent before admits (lengthOf_of_stored stored) free
        alone (published ▸ phase_of_object stored owned found)
        (fenced.repairing consistent repairs ▸ fenced.outstanding))

theorem Targeted.sameLife {cid : Ident} {length : Nat} {target : NodeId}
    (targeted : Targeted c now db db' cid length target) : SameLife db db' := by
  rcases targeted.choice with ⟨_, _, _, rfl⟩ | ⟨_, _, _, _, _, rfl⟩ <;> exact ⟨rfl, rfl, rfl, rfl⟩

theorem repairBegin_known {job : Job} {repair : Repair}
    (begun : db.repairBegin c now job = .ok (some repair, db')) :
    repair.Known db' job.task.chunk := by
  obtain ⟨chunk, upload, object, fenced, stored, owned, found, published, outcome⟩ :=
    repairBegin_ok begun
  rcases outcome with ⟨_, result, _⟩ | ⟨_, _, target, node, targeted, located, result⟩
  · cases result
  · obtain rfl := Option.some.inj result
    have same := targeted.sameLife
    refine ⟨⟨chunk, upload, object, by rw [same.chunks, stored], rfl, rfl, rfl,
      by rw [same.uploads, owned], rfl, by rw [same.objects, found], rfl, by simp [published]⟩,
      .inl ⟨node, located, rfl⟩⟩

/-- What the second transaction of a repair establishes. -/
theorem repairCommit_ok {job : Job} {repair : Repair}
    (committed : db.repairCommit c now job repair = .ok db') :
    ∃ object node replica copied, db.Fence now job ∧
      db.objects.get? repair.object = some object ∧ object.state = .published ∧
      db.nodes.get? repair.target = some node ∧ node.volume = repair.volume ∧
      node.inst = repair.inst ∧
      db.replicas.get? (job.task.chunk, repair.target) = some replica ∧
      replica.state = .reserved ∧ replica.charged = .reserved ∧
      ((repair.required ≤ (healthy c now db job.task.chunk).length ∧
          copied = ((db.uncharge job.task.chunk repair.target repair.length).modifyReplica
            job.task.chunk repair.target fun row => { row with state := .bad }).enqueue now .delete
              job.task.chunk (some repair.target) (c.authTtl + 30)) ∨
        ((healthy c now db job.task.chunk).length < repair.required ∧
          copied = db.settle job.task.chunk repair.target repair.length)) ∧
      db' = copied.modifyTask job.task fun row =>
        if row.token = some job.token then { row with state := .done, lease := 0, reason := "" }
        else row := by
  simp only [repairCommit, fence, bind_eq_ok, require_eq_ok, found_eq_ok, pure_eq_ok] at committed
  obtain ⟨_, fenced, object, located, _, published, node, registered, _, ⟨volume, inst⟩, replica,
    stored, _, ⟨reserved, charged⟩, rfl⟩ := committed
  refine ⟨object, node, replica, _, fenced, located, published, registered, volume, inst, stored,
    reserved, charged, ?_, rfl⟩
  by_cases enough : repair.required ≤ (healthy c now db job.task.chunk).length
  · exact .inl ⟨enough, if_pos enough⟩
  · exact .inr ⟨not_le.mp enough, if_neg enough⟩

theorem repairCommit_steps (consistent : Consistent db) {job : Job} {repair : Repair}
    (repairs : job.task.kind = .repair) (known : repair.Known db job.task.chunk)
    (committed : db.repairCommit c now job repair = .ok db') :
    Steps (.settle job.task.chunk [repair.target]) drawn db db' := by
  obtain ⟨object, node, replica, copied, fenced, located, published, registered, volume, inst,
    stored, reserved, charged, outcome, rfl⟩ := repairCommit_ok committed
  obtain ⟨chunk, upload, object', present, sized, _, owner, owned, belongs, found, _, _⟩ := known.chunk
  obtain rfl := Option.some.inj (located.symm.trans found)
  have phase : db.phase job.task.chunk = some .published :=
    published ▸ phase_of_object present (owner ▸ owned) (belongs ▸ found)
  have length : db.lengthOf job.task.chunk = repair.length :=
    (lengthOf_of_stored present).trans sized
  have other : ∀ nid row, nid ≠ repair.target →
      db.replicas.get? (job.task.chunk, nid) = some row → row.state ≠ .reserved :=
    fun nid row different located again => different
      (consistent.single _ _ _ row replica phase located stored again reserved)
  rcases outcome with ⟨_, rfl⟩ | ⟨_, rfl⟩
  · have returned : Moves (.settle job.task.chunk [repair.target]) drawn db
        (db.uncharge job.task.chunk repair.target repair.length) :=
      Moves.uncharge length fun _ _ _ => phase
    have discarded : Moves (.settle job.task.chunk [repair.target]) drawn
        (db.uncharge job.task.chunk repair.target repair.length)
        ((db.uncharge job.task.chunk repair.target repair.length).modifyReplica job.task.chunk
          repair.target fun row => { row with state := .bad }) := by
      refine Moves.ofMark _ (fun _ => rfl) fun row present => ?_
      obtain ⟨old, before, rfl⟩ := uncharge_row present
      obtain rfl := Option.some.inj (stored.symm.trans before)
      exact .discard _ ⟨_, rfl, by simp⟩ reserved
    refine (((Relation.ReflTransGen.single returned).tail discarded).tail
      (Moves.enqueue (.inl ?_) (by simp))).tail
        (finishTask_moves (by simp [repairs]) (fun _ => .inr (.inr ?_)) _ fun _ => rfl)
    · exact ne_of_eq_of_ne (((db.uncharge_same _ _ _).phase _).trans phase) (by simp)
    intro nid row present
    rw [enqueue_eq] at present
    simp only [modifyReplica, uncharge_eq, Table.get?_modify] at present
    by_cases same : nid = repair.target
    · subst same
      simp only [if_true, stored, Option.map_some, Option.some.injEq] at present
      simp [← present]
    · simp only [Prod.mk.injEq, same, and_false, if_false] at present
      exact other nid row same present
  · refine (Relation.ReflTransGen.single (Moves.settle ⟨_, rfl, by simp⟩ stored reserved charged length)).tail
      (finishTask_moves (by simp [repairs]) (fun _ => .inr (.inr ?_)) _ fun _ => rfl)
    intro nid row present
    rw [settle_eq] at present
    simp only [Table.get?_modify] at present
    by_cases same : nid = repair.target
    · subst same
      simp only [if_true, stored, Option.map_some, Option.some.injEq] at present
      simp [← present]
    · rw [if_neg (by simp [same])] at present
      exact other nid row same present

end Database

end FileServer.Metadata
