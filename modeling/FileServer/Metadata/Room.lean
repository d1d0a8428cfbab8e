import FileServer.Metadata.Targets
import Mathlib.Algebra.BigOperators.Ring.Finset
import Mathlib.Algebra.Order.Ring.Nat

/-!
# Room for a copy

A node without a copy of a chunk is charged for the other chunks at most, so
one that reports enough free bytes can be reserved for it.
-/

namespace FileServer.Metadata

open FileServer.Relational FileServer.Transition

namespace Database

variable {c : Config} {now : Time} {db : Database} {cid : Ident} {nid : NodeId}

def chunkIds (db : Database) : Finset Ident := (db.chunks.rows.map Prod.fst).toFinset

theorem mem_chunkIds : cid ∈ db.chunkIds ↔ ∃ chunk, db.chunks.get? cid = some chunk := by
  simp only [chunkIds, List.mem_toFinset, List.mem_map, Prod.exists, exists_and_right,
    exists_eq_right, Table.mem_rows_iff]

theorem sum_lengths : ((db.chunks.sum fun _ chunk => chunk.length : Nat) : Int) =
    ∑ cid ∈ db.chunkIds, (db.lengthOf cid : Int) := by
  have keyed : (db.chunks.sum fun _ chunk => chunk.length) =
      ∑ cid ∈ db.chunkIds, (db.chunks.get? cid).elim 0 ChunkRow.length :=
    db.chunks.sum_eq_sum_keys db.chunkIds fun cid chunk stored => mem_chunkIds.mpr ⟨chunk, stored⟩
  rw [keyed]
  rw [Nat.cast_sum]
  refine Finset.sum_congr rfl fun cid _ => ?_
  cases stored : db.chunks.get? cid <;> simp [lengthOf, stored]

theorem chargedBytes_eq (consistent : Consistent db) (kind : Charge) (nid : NodeId) :
    db.chargedBytes kind nid = ∑ cid ∈ db.chunkIds, (db.replicas.get? (cid, nid)).elim 0
      fun row => if row.charged = kind then (db.lengthOf cid : Int) else 0 := by
  have covers : ∀ key row, db.replicas.get? key = some row →
      key ∈ db.chunkIds ×ˢ insert nid (db.replicas.rows.map fun entry => entry.1.2).toFinset := by
    rintro ⟨other, node⟩ row stored
    obtain ⟨chunk, present⟩ := consistent.replicaChunk other node row stored
    refine Finset.mem_product.mpr ⟨mem_chunkIds.mpr ⟨chunk, present⟩,
      Finset.mem_insert_of_mem (List.mem_toFinset.mpr (List.mem_map.mpr ⟨((other, node), row), ?_, rfl⟩))⟩
    exact (Table.mem_rows_iff _).mpr stored
  rw [chargedBytes, Table.sum_eq_sum_keys _ _ covers, Finset.sum_product]
  refine Finset.sum_congr rfl fun other _ => ?_
  rw [Finset.sum_eq_single_of_mem nid (Finset.mem_insert_self _ _)]
  · simp
  · intro node _ different
    cases db.replicas.get? (other, node) <;> simp [different]

theorem charges_fit (consistent : Consistent db) {node : NodeRow} {chunk : ChunkRow}
    (located : db.nodes.get? nid = some node) (stored : db.chunks.get? cid = some chunk)
    (free : ∀ row, db.replicas.get? (cid, nid) = some row → row.charged = .none) :
    node.reserved + node.usedBytes + chunk.length ≤
        (db.chunks.sum fun _ chunk => chunk.length : Nat) ∧ 0 ≤ node.usedBytes := by
  obtain ⟨reserved, used⟩ := consistent.accounted nid node located
  have listed : cid ∈ db.chunkIds := mem_chunkIds.mpr ⟨chunk, stored⟩
  rw [reserved, used, sum_lengths, chargedBytes_eq consistent, chargedBytes_eq consistent,
    ← Finset.sum_add_distrib, ← Finset.sum_erase_add _ _ listed,
    ← Finset.sum_erase_add _ (fun cid => (db.lengthOf cid : Int)) listed]
  refine ⟨?_, Finset.sum_nonneg fun other _ => ?_⟩
  · have here : ∀ kind, kind ≠ Charge.none → ((db.replicas.get? (cid, nid)).elim 0 fun row =>
        if row.charged = kind then (db.lengthOf cid : Int) else 0) = 0 := by
      intro kind charging
      cases present : db.replicas.get? (cid, nid) with
      | none => rfl
      | some row => simp [free row present, Ne.symm charging]
    rw [here .reserved (by simp), here .used (by simp), add_zero, add_zero,
      lengthOf_of_stored stored]
    refine Int.add_le_add_right (Finset.sum_le_sum fun other _ => ?_) _
    cases db.replicas.get? (other, nid) with
    | none => simp
    | some row => cases charge : row.charged <;> simp [charge]
  · cases db.replicas.get? (other, nid) with
    | none => exact le_rfl
    | some row =>
        simp only [Option.elim]
        split <;> simp

theorem repairTarget_spare (consistent : Consistent db) {chunk : ChunkRow} {oid : Ident}
    {object : ObjectRow} {sources : List Source} (readable : sources ≠ [])
    (alive : ∀ nid node, db.nodes.get? nid = some node → node.Alive c now)
    {node : NodeRow} (located : db.nodes.get? nid = some node)
    (spare : ∀ row, db.replicas.get? (cid, nid) = some row → row.state = .gone ∨
      row.state = .reserved)
    (room : (∀ row, db.replicas.get? (cid, nid) = some row → row.charged = .none) →
      node.Admits c now chunk.length) :
    ∃ repair db', db.repairTarget c now cid chunk oid object sources = .ok (repair, db') := by
  unfold repairTarget
  cases search : (db.replicasOf cid).find? fun entry => entry.2.state = .reserved with
  | some pending =>
      have stored := db.mem_replicasOf.mp (List.mem_of_find?_eq_some search)
      obtain ⟨target, there⟩ := consistent.replicaNode cid pending.1 pending.2 stored
      simp only [search, bind_eq_ok, require_eq_ok, found_eq_ok, pure_eq_ok, Prod.exists,
        Prod.mk.injEq]
      exact ⟨_, _, (), readable, pending.1, db, ⟨rfl, rfl⟩, target, there, (),
        alive pending.1 target there, rfl, rfl⟩
  | none =>
      have gone : ∀ row, db.replicas.get? (cid, nid) = some row → row.state = .gone := by
        intro row stored
        refine (spare row stored).resolve_right fun reserved => ?_
        have missed := List.find?_eq_none.mp search (nid, row) (db.mem_replicasOf.mpr stored)
        simp [reserved] at missed
      have admits := room fun row stored =>
        consistent.goneUncharged cid nid row stored (gone row stored)
      set excluded := ((db.replicasOf cid).filter fun entry => entry.2.state ≠ .gone).map Prod.fst
      have outside : nid ∉ excluded := by
        intro membership
        obtain ⟨⟨_, row⟩, listed, rfl⟩ := List.mem_map.mp membership
        obtain ⟨present, live⟩ := List.mem_filter.mp listed
        exact of_decide_eq_true live (gone row (db.mem_replicasOf.mp present))
      obtain ⟨⟨chosen, after⟩, taken⟩ :=
        @reserve_possible c now db cid chunk.length excluded nid node located outside admits
      obtain ⟨targets, selection, rfl, single, rfl⟩ := db.reserve_ok taken
      obtain ⟨⟨target, picked⟩, rfl⟩ := List.length_eq_one_iff.mp single
      have stored := selection.stored _ List.mem_cons_self
      have there : (reserveAll cid chunk.length [(target, picked)] db).nodes.get? target =
          some { picked with reserved := picked.reserved + chunk.length } := by
        simp [reserveAll, reserveOn, stored]
      have live := (selection.admitted _ List.mem_cons_self).1
      simp only [search, bind_eq_ok, require_eq_ok, found_eq_ok, pure_eq_ok, Prod.exists,
        Prod.mk.injEq]
      exact ⟨_, _, (), readable, _, _, taken, target, rfl, target, _, ⟨rfl, rfl⟩, _, there, (), live,
        rfl, rfl⟩

/-- The first transaction of a repair finds its target. -/
theorem repairBegin_spare (consistent : Consistent db) {job : Job} (fenced : db.Fence now job)
    {chunk : ChunkRow} {upload : UploadRow} {oid : Ident} {object : ObjectRow}
    (known : db.chunkObject job.task.chunk = some (chunk, upload, oid, object))
    (published : object.state = .published)
    (few : (healthy c now db job.task.chunk).length < object.replicas)
    (readable : healthy c now db job.task.chunk ≠ [])
    (alive : ∀ nid node, db.nodes.get? nid = some node → node.Alive c now)
    {node : NodeRow} (located : db.nodes.get? nid = some node)
    (spare : ∀ row, db.replicas.get? (job.task.chunk, nid) = some row → row.state = .gone ∨
      row.state = .reserved)
    (room : (∀ row, db.replicas.get? (job.task.chunk, nid) = some row → row.charged = .none) →
      node.Admits c now chunk.length) :
    ∃ repair db', db.repairBegin c now job = .ok (some repair, db') := by
  obtain ⟨repair, db', targeted⟩ := @repairTarget_spare c now db job.task.chunk nid consistent chunk
    oid object _ readable alive node located spare room
  refine ⟨repair, db', ?_⟩
  simp only [repairBegin, bind_eq_ok, require_eq_ok, found_eq_ok, fence, known]
  exact ⟨(), fenced, _, rfl, (), published, by rw [if_neg (not_le.mpr few), targeted]; rfl⟩

/-- A repair of the chunk reserves its target, unless that is reserved already,
and changes no other copy. -/
structure Undertaken (c : Config) (now : Time) (cid : Ident) (repair : Repair) (db db' : Database) :
    Prop where
  life : SameLife db db'
  tasks : db'.tasks = db.tasks
  sources : repair.sources = healthy c now db cid
  known : ∃ chunk upload oid object, db.chunkObject cid = some (chunk, upload, oid, object) ∧
    repair.length = chunk.length ∧ repair.sha = chunk.sha ∧ repair.required = object.replicas
  before : ∀ row, db.replicas.get? (cid, repair.target) = some row →
    row.state = .gone ∨ row.state = .reserved ∧ db'.replicas.get? (cid, repair.target) = some row
  after : ∃ row, db'.replicas.get? (cid, repair.target) = some row ∧ row.state = .reserved ∧
    ((∀ old, db.replicas.get? (cid, repair.target) = some old → old.state = .gone) →
      row.charged = .reserved)
  others : ∀ nid, nid ≠ repair.target →
    db'.replicas.get? (cid, nid) = db.replicas.get? (cid, nid)

theorem repairBegin_undertaken {db' : Database} {job : Job} {repair : Repair}
    (begun : db.repairBegin c now job = .ok (some repair, db')) :
    Undertaken c now job.task.chunk repair db db' := by
  obtain ⟨chunk, upload, object, _, recorded, owned, found, published, outcome⟩ :=
    repairBegin_ok begun
  rcases outcome with ⟨_, wrong, _⟩ | ⟨_, _, target, node, targeted, located, result⟩
  · cases wrong
  · cases result
    have known : db.chunkObject job.task.chunk = some (chunk, upload, upload.object, object) :=
      db.chunkObject_eq_some.mpr ⟨recorded, owned, rfl, found⟩
    rcases targeted.choice with ⟨row, stored, reserved, rfl⟩ | ⟨_, gone, node, _, _, rfl⟩
    · refine ⟨⟨rfl, rfl, rfl, rfl⟩, rfl, rfl, ⟨_, _, _, _, known, rfl, rfl, rfl⟩, ?_,
        ⟨row, stored, reserved, fun free => ?_⟩, fun _ _ => rfl⟩
      · intro other present
        obtain rfl := Option.some.inj (stored.symm.trans present)
        exact .inr ⟨reserved, stored⟩
      · simp [free row stored] at reserved
    · rw [db.reserveOn_eq]
      refine ⟨⟨rfl, rfl, rfl, rfl⟩, rfl, rfl, ⟨_, _, _, _, known, rfl, rfl, rfl⟩,
        fun row stored => .inl (gone row stored),
        ⟨⟨node.volume, .reserved, .reserved⟩, ?_, rfl, fun _ => rfl⟩, fun nid other => ?_⟩
      · cases present : db.replicas.get? (job.task.chunk, target) <;>
          simp [Table.get?_upsert, present]
      · rw [Table.get?_upsert, if_neg (by simp [other])]

/-- The repair of the chunk has its target, and its lease ends at the limit. -/
structure Aimed (cid : Ident) (limit : Time) (job : Job) (repair : Repair) (db : Database) :
    Prop where
  task : job.task = ⟨.repair, cid, none⟩
  fenced : ∀ now, now < limit → db.Fence now job
  chunk : ∃ chunk, db.chunks.get? cid = some chunk ∧ chunk.length = repair.length ∧
    chunk.sha = repair.sha
  object : ∃ object, db.objects.get? repair.object = some object ∧ object.state = .published
  node : ∃ node, db.nodes.get? repair.target = some node ∧ node.volume = repair.volume ∧
    node.inst = repair.inst
  replica : ∃ row, db.replicas.get? (cid, repair.target) = some row ∧ row.state = .reserved ∧
    row.charged = .reserved

/-- What the first transaction of a repair establishes for the second. -/
theorem repairBegin_aims {db' : Database} {job : Job} {repair : Repair} {limit : Time}
    (begun : db.repairBegin c now job = .ok (some repair, db'))
    (task : job.task = ⟨.repair, cid, none⟩) (fenced : ∀ now, now < limit → db.Fence now job)
    (charged : ∀ nid row, db.replicas.get? (cid, nid) = some row → row.state = .reserved →
      row.charged = .reserved) : Aimed cid limit job repair db' := by
  have undertaken := repairBegin_undertaken begun
  obtain rfl : job.task.chunk = cid := by rw [task]
  obtain ⟨chunk, upload, object, _, recorded, owned, found, published, outcome⟩ :=
    repairBegin_ok begun
  have same := undertaken.life
  rcases outcome with ⟨_, wrong, _⟩ | ⟨_, _, target, node, _, located, result⟩
  · cases wrong
  cases result
  refine ⟨task, ?_, ⟨chunk, by rw [same.chunks, recorded], rfl, rfl⟩,
    ⟨object, by rw [same.objects, found], published⟩, ⟨node, located, rfl, rfl⟩, ?_⟩
  · intro now early
    obtain ⟨row, stored, fits⟩ := fenced now early
    exact ⟨row, by rw [undertaken.tasks]; exact stored, fits⟩
  · obtain ⟨row, stored, reserved, fresh⟩ := undertaken.after
    refine ⟨row, stored, reserved, ?_⟩
    by_cases free : ∀ old, db.replicas.get? (job.task.chunk, target) = some old → old.state = .gone
    · exact fresh free
    · simp only [not_forall] at free
      obtain ⟨old, before, held⟩ := free
      obtain ⟨state, kept⟩ := (undertaken.before old before).resolve_left held
      obtain rfl := Option.some.inj (stored.symm.trans kept)
      exact charged _ _ before state

/-- The second transaction of a repair counts the copy. -/
theorem Aimed.commits {limit : Time} {job : Job} {repair : Repair}
    (aimed : Aimed cid limit job repair db) (early : now < limit)
    (few : (healthy c now db cid).length < repair.required) :
    ∃ db', db.repairCommit c now job repair = .ok db' ∧ SameLife db db' ∧
      (∃ row, db'.replicas.get? (cid, repair.target) = some row ∧ row.state = .valid) ∧
      ∀ nid, nid ≠ repair.target → db'.replicas.get? (cid, nid) = db.replicas.get? (cid, nid) := by
  obtain rfl : job.task.chunk = cid := by rw [aimed.task]
  obtain ⟨object, found, published⟩ := aimed.object
  obtain ⟨node, located, volume, inst⟩ := aimed.node
  obtain ⟨row, stored, reserved, charged⟩ := aimed.replica
  refine ⟨(db.settle job.task.chunk repair.target repair.length).modifyTask job.task fun row =>
    if row.token = some job.token then { row with state := .done, lease := 0, reason := "" }
    else row, ?_, ?_, ?_, ?_⟩
  · simp only [repairCommit, fence, bind_eq_ok, require_eq_ok, found_eq_ok, pure_eq_ok]
    exact ⟨(), aimed.fenced now early, object, found, (), published, node, located, (),
      ⟨volume, inst⟩, row, stored, (), ⟨reserved, charged⟩, by rw [if_neg (not_le.mpr few)]⟩
  · exact ⟨rfl, rfl, rfl, rfl⟩
  · refine ⟨{ row with state := .valid, charged := .used }, ?_, rfl⟩
    rw [settle_eq]
    simp [modifyTask, stored]
  · intro nid other
    rw [settle_eq]
    exact Table.get?_modify_of_ne _ _ (by simp [other])

end Database

end FileServer.Metadata
