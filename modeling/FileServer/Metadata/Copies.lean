import FileServer.Metadata.Invariant

/-!
# Copies of published chunks

A repair keeps one reservation per chunk, and the copy it adds brings the
healthy copies up to the number required, never above it.
-/

namespace FileServer.Metadata

open FileServer.Relational FileServer.Transition

namespace Database

variable {c : Config} {now : Time} {db db' : Database} {cid : Ident}

def HealthyOn (c : Config) (now : Time) (db : Database) (cid : Ident) (nid : NodeId) : Prop :=
  ∃ row node, db.replicas.get? (cid, nid) = some row ∧ db.nodes.get? nid = some node ∧
    row.state = .valid ∧ row.volume = node.volume ∧ node.Alive c now

theorem mem_healthy {nid : NodeId} :
    nid ∈ (healthy c now db cid).map Source.node ↔ HealthyOn c now db cid nid := by
  simp only [healthy, List.map_map, List.mem_map, List.mem_filter, Function.comp_apply, Prod.exists,
    mem_copies, decide_eq_true_eq]
  constructor
  · rintro ⟨_, row, node, ⟨⟨stored, located⟩, counted⟩, rfl⟩
    exact ⟨row, node, stored, located, counted⟩
  · rintro ⟨row, node, stored, located, counted⟩
    exact ⟨nid, row, node, ⟨⟨stored, located⟩, counted⟩, rfl⟩

theorem healthy_nodup : ((healthy c now db cid).map Source.node).Nodup := by
  have distinct := db.copies_nodup cid
  simp only [healthy, List.map_map]
  exact distinct.sublist ((List.filter_sublist).map Prod.fst)

theorem healthy_length_le (extra : List NodeId)
    (nodes : ∀ nid node', db'.nodes.get? nid = some node' → ∃ node, db.nodes.get? nid = some node ∧
      node.volume = node'.volume ∧ node.state = node'.state ∧ node.heartbeat = node'.heartbeat)
    (rows : ∀ nid row, db'.replicas.get? (cid, nid) = some row → row.state = .valid →
      nid ∈ extra ∨ db.replicas.get? (cid, nid) = some row) :
    (healthy c now db' cid).length ≤ (healthy c now db cid).length + extra.length := by
  have covered : (healthy c now db' cid).map Source.node ⊆
      (healthy c now db cid).map Source.node ++ extra := by
    intro nid membership
    obtain ⟨row, node', stored, located, valid, volume, alive⟩ := mem_healthy.mp membership
    rcases rows nid row stored valid with added | before
    · exact List.mem_append_right _ added
    · obtain ⟨node, locatedBefore, sameVolume, sameState, sameBeat⟩ := nodes nid node' located
      refine List.mem_append_left _ (mem_healthy.mpr
        ⟨row, node, before, locatedBefore, valid, volume.trans sameVolume.symm, ?_⟩)
      exact ⟨sameState.trans alive.1, sameBeat ▸ alive.2⟩
  simpa using (List.Nodup.subperm healthy_nodup covered).length_le

theorem nodes_adjusted {nid : NodeId} {reserved used : Int} {nodes' : Table NodeId NodeRow}
    (nodes : nodes' = db.nodes.modify nid fun node => node.adjust reserved used)
    (other : NodeId) (node' : NodeRow) (located : nodes'.get? other = some node') :
    ∃ node, db.nodes.get? other = some node ∧ node.volume = node'.volume ∧
      node.state = node'.state ∧ node.heartbeat = node'.heartbeat := by
  rw [nodes, Table.get?_modify] at located
  split at located
  · obtain ⟨node, before, rfl⟩ := Option.map_eq_some_iff.mp located
    exact ⟨node, before, rfl, rfl, rfl⟩
  · exact ⟨node', located, rfl, rfl, rfl⟩

/-- Finishing the repair early or reserving a node adds no healthy copy. -/
theorem repairBegin_healthy {job : Job} {result : Option Repair}
    (begun : db.repairBegin c now job = .ok (result, db')) :
    (healthy c now db' cid).length ≤ (healthy c now db cid).length := by
  obtain ⟨chunk, upload, object, _, _, _, _, _, outcome⟩ := repairBegin_ok begun
  rcases outcome with ⟨_, _, rfl⟩ | ⟨_, _, target, node, targeted, _, _⟩
  · exact healthy_length_le [] (fun nid node' located => ⟨node', located, rfl, rfl, rfl⟩)
      fun nid row stored _ => .inr stored
  rcases targeted.choice with ⟨_, _, _, rfl⟩ | ⟨_, _, picked, _, _, rfl⟩
  · exact le_rfl
  · rw [reserveOn_eq]
    refine healthy_length_le [] (nodes_adjusted rfl) fun nid row stored valid => .inr ?_
    simp only [Table.get?_upsert] at stored
    split at stored
    · cases before : db.replicas.get? (job.task.chunk, target) <;>
        simp only [before, Option.elim_some, Option.elim_none, Option.some.injEq] at stored <;>
          simp [← stored] at valid
    · exact stored

/-- The copy a repair publishes is one that was missing. -/
theorem repairCommit_healthy {job : Job} {repair : Repair} (known : repair.Known db job.task.chunk)
    (committed : db.repairCommit c now job repair = .ok db') :
    (healthy c now db' cid).length ≤ (healthy c now db cid).length ∨
      ∃ chunk upload oid object, db.chunkObject cid = some (chunk, upload, oid, object) ∧
        (healthy c now db' cid).length ≤ object.replicas := by
  obtain ⟨_, node, replica, copied, _, _, _, _, _, _, stored, _, _, outcome, rfl⟩ :=
    repairCommit_ok committed
  rcases outcome with ⟨_, rfl⟩ | ⟨few, rfl⟩
  · left
    refine healthy_length_le [] (nodes_adjusted (by rw [uncharge_eq]; rfl)) ?_
    intro nid row present valid
    rw [enqueue_eq] at present
    simp only [modifyTask, modifyReplica, uncharge_eq, Table.get?_modify] at present
    split at present
    · simp only [Option.map_eq_some_iff] at present
      obtain ⟨_, _, rfl⟩ := present
      simp at valid
    · exact .inr present
  have nodes : (db.settle job.task.chunk repair.target repair.length).nodes =
      db.nodes.modify repair.target fun node => node.adjust (-repair.length) repair.length := by
    rw [settle_eq]
  by_cases same : cid = job.task.chunk
  · right
    subst same
    obtain ⟨chunk, upload, object, present, _, _, owner, owned, belongs, found, required, _⟩ :=
      known.chunk
    refine ⟨chunk, upload, upload.object, object, db.chunkObject_eq_some.mpr
      ⟨present, owner ▸ owned, rfl, belongs ▸ found⟩,
      (healthy_length_le [repair.target] (nodes_adjusted nodes) fun nid row present valid => ?_).trans ?_⟩
    · by_cases here : nid = repair.target
      · exact .inl (by simp [here])
      · simp only [settle_eq, Table.get?_modify, Prod.mk.injEq, here, and_false, if_false] at present
        exact .inr present
    · rw [List.length_singleton]
      omega
  · left
    refine healthy_length_le [] (nodes_adjusted nodes) fun nid row present valid => .inr ?_
    simpa only [modifyTask, settle_eq, Table.get?_modify, Prod.mk.injEq, same, false_and,
      if_false] using present

def reservedBytes (db : Database) (cid : Ident) : Nat :=
  (((db.replicasOf cid).filter fun entry => entry.2.charged = .reserved).map fun _ =>
    db.lengthOf cid).sum

theorem reservedBytes_le (first : NodeId) (only : ∀ nid row,
    db.replicas.get? (cid, nid) = some row → row.charged = .reserved → nid = first) :
    db.reservedBytes cid ≤ db.lengthOf cid := by
  have covered : ((db.replicasOf cid).filter fun entry => entry.2.charged = .reserved).map
      Prod.fst ⊆ [first] := by
    intro nid membership
    obtain ⟨⟨_, row⟩, charged, rfl⟩ := List.mem_map.mp membership
    rw [List.mem_filter, mem_replicasOf, decide_eq_true_eq] at charged
    exact List.mem_singleton.mpr (only _ row charged.1 charged.2)
  have distinct := (db.replicasOf_nodup cid).sublist
    ((List.filter_sublist (p := fun entry => entry.2.charged = .reserved)).map Prod.fst)
  have count := (distinct.subperm covered).length_le
  rw [List.length_map, List.length_singleton] at count
  simpa [reservedBytes] using Nat.mul_le_mul_right (db.lengthOf cid) count

end Database

/-- Each published chunk has at most one reserved row, hence at most one
length of reserved capacity, and no transaction of a repair brings the healthy
copies of a chunk above the number its object requires. -/
theorem repair_bounded {σ : State} (reached : Reachable metadata σ) :
    (∀ cid, σ.db.phase cid = some .published →
      (∀ first second row row', σ.db.replicas.get? (cid, first) = some row →
        σ.db.replicas.get? (cid, second) = some row' → row.state = .reserved →
        row'.state = .reserved → first = second) ∧
      σ.db.reservedBytes cid ≤ σ.db.lengthOf cid) ∧
    ∀ w c job σ',
      (σ.workers w = .claimed job ∧ job.task.kind = .repair ∧
        metadata.step σ (.begin w c) = some σ') ∨
      ((∃ repair, σ.workers w = .verified job repair) ∧
        metadata.step σ (.commit w c) = some σ') →
      ∀ cid chunk upload oid object, σ.db.chunkObject cid = some (chunk, upload, oid, object) →
        (Database.healthy c σ.now σ.db cid).length ≤ object.replicas →
        (Database.healthy c σ.now σ'.db cid).length ≤ object.replicas := by
  have invariant := reachable_invariant reached
  refine ⟨fun cid published => ?_, ?_⟩
  · have single := invariant.consistent.single cid
    refine ⟨fun first second row row' => single first second row row' published, ?_⟩
    by_cases held : ∃ nid row, σ.db.replicas.get? (cid, nid) = some row ∧ row.charged = .reserved
    · obtain ⟨first, row, stored, charged⟩ := held
      refine Database.reservedBytes_le first fun nid row' stored' charged' => ?_
      exact single nid first row' row published stored' stored
        (invariant.consistent.chargedReserved _ _ _ stored' charged')
        (invariant.consistent.chargedReserved _ _ _ stored charged)
    · exact Database.reservedBytes_le 0 fun nid row stored charged =>
        absurd ⟨nid, row, stored, charged⟩ held
  · rintro w c job σ' (⟨claimed, repairs, stepped⟩ | ⟨⟨repair, verified⟩, stepped⟩) cid chunk upload
      oid object known bounded
    · have taken : σ.step (.begin w c) = some σ' := stepped
      simp only [State.step, State.workerStep, claimed, State.beginJob, repairs,
        Option.some.injEq] at taken
      subst taken
      split
      · next db begun => exact (Database.repairBegin_healthy begun).trans bounded
      · next db begun => exact (Database.repairBegin_healthy begun).trans bounded
      · exact bounded
    · have taken : σ.step (.commit w c) = some σ' := stepped
      simp only [State.step, State.workerStep, State.commitJob, verified] at taken
      split at taken
      · next db committed =>
          cases taken
          have facts := ((invariant.workers w).repair job repair (by simp [verified, Worker.repair?])).2
          rcases Database.repairCommit_healthy facts committed with fewer | ⟨_, _, _, _, same, enough⟩
          · exact fewer.trans bounded
          · rw [known, Option.some.injEq, Prod.mk.injEq, Prod.mk.injEq, Prod.mk.injEq] at same
            exact same.2.2.2 ▸ enough
      · cases taken
        exact bounded

/-- The reservation of a repair takes no more than the chunk. -/
theorem repair_bounded_repairing : repairing.db.phase 1002 = some .published ∧
    repairing.db.reservedBytes 1002 = 1 ∧
    repairing.db.reservedBytes 1002 ≤ repairing.db.lengthOf 1002 := by
  have published : repairing.db.phase 1002 = some .published := by decide +kernel
  exact ⟨published, by decide +kernel, ((repair_bounded repairing_run.reachable).1 1002 published).2⟩

end FileServer.Metadata
