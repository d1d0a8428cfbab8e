import FileServer.Metadata.Moves

/-!
# Capacity accounting

The helpers that move bytes between `reserved`, `used` and nothing move the
counters of the node by the same amount.
-/

namespace FileServer.Metadata

open FileServer.Relational

/-- What a replica row of this charge and length adds to one counter. -/
def weight (kind charge : Charge) (length : Nat) : Int :=
  if charge = kind then length else 0

namespace Database

variable {db db' : Database} {cid : Ident} {nid : NodeId}

theorem lengthOf_eq (chunks : db'.chunks = db.chunks) (cid : Ident) :
    db'.lengthOf cid = db.lengthOf cid := by
  simp only [lengthOf, chunks]

theorem lengthOf_of_stored {chunk : ChunkRow}
    (stored : db.chunks.get? cid = some chunk) : db.lengthOf cid = chunk.length := by
  simp [lengthOf, stored]

theorem chargedBytes_congr (chunks : db'.chunks = db.chunks) (replicas : db'.replicas = db.replicas)
    (kind : Charge) (other : NodeId) :
    db'.chargedBytes kind other = db.chargedBytes kind other := by
  simp only [chargedBytes, lengthOf, chunks, replicas]

theorem chargedBytes_modify {row : ReplicaRow} {f : ReplicaRow → ReplicaRow}
    (stored : db.replicas.get? (cid, nid) = some row)
    (replicas : db'.replicas = db.replicas.modify (cid, nid) f) (chunks : db'.chunks = db.chunks)
    (kind : Charge) (other : NodeId) :
    db'.chargedBytes kind other = db.chargedBytes kind other +
      if nid = other then
        weight kind (f row).charged (db.lengthOf cid) - weight kind row.charged (db.lengthOf cid)
      else 0 := by
  simp only [chargedBytes, replicas, lengthOf_eq chunks, Table.sum_modify _ stored]
  by_cases same : nid = other <;> simp [same, weight]

theorem chargedBytes_upsert (row : ReplicaRow)
    (replicas : db'.replicas = db.replicas.upsert (cid, nid) row fun _ => row)
    (chunks : db'.chunks = db.chunks)
    (free : ∀ old, db.replicas.get? (cid, nid) = some old → old.charged = .none)
    (kind : Charge) (charging : kind ≠ .none) (other : NodeId) :
    db'.chargedBytes kind other = db.chargedBytes kind other +
      if nid = other then weight kind row.charged (db.lengthOf cid) else 0 := by
  simp only [chargedBytes, replicas, lengthOf_eq chunks, Table.sum_upsert]
  cases stored : db.replicas.get? (cid, nid) with
  | none => by_cases same : nid = other <;> simp [same, weight]
  | some old =>
      by_cases same : nid = other <;> simp [same, weight, free old stored, Ne.symm charging]

theorem chargedBytes_mapRows {f : Ident × NodeId → ReplicaRow → ReplicaRow}
    (replicas : db'.replicas = db.replicas.mapRows f)
    (kept : ∀ key row, (f key row).charged = row.charged) (chunks : db'.chunks = db.chunks)
    (kind : Charge) (other : NodeId) :
    db'.chargedBytes kind other = db.chargedBytes kind other := by
  simp only [chargedBytes, replicas, lengthOf_eq chunks, Table.sum_mapRows, kept]

namespace Accounted

theorem follow (accounted : db.Accounted)
    (nodes : ∀ other node', db'.nodes.get? other = some node' →
      ∃ node, db.nodes.get? other = some node ∧
        node'.reserved - node.reserved =
          db'.chargedBytes .reserved other - db.chargedBytes .reserved other ∧
        node'.usedBytes - node.usedBytes =
          db'.chargedBytes .used other - db.chargedBytes .used other) : db'.Accounted := by
  intro other node' stored
  obtain ⟨node, before, reserved, used⟩ := nodes other node' stored
  obtain ⟨reservedBefore, usedBefore⟩ := accounted other node before
  constructor <;> omega

theorem congr (accounted : db.Accounted) (nodes : db'.nodes = db.nodes)
    (chunks : db'.chunks = db.chunks) (replicas : db'.replicas = db.replicas) : db'.Accounted := by
  refine accounted.follow fun other node stored => ⟨node, nodes ▸ stored, ?_, ?_⟩ <;>
    simp [chargedBytes_congr chunks replicas]

theorem modify (accounted : db.Accounted) {row : ReplicaRow} (f : ReplicaRow → ReplicaRow)
    (stored : db.replicas.get? (cid, nid) = some row) {reserved used : Int}
    (replicas : db'.replicas = db.replicas.modify (cid, nid) f) (chunks : db'.chunks = db.chunks)
    (nodes : db'.nodes = db.nodes.modify nid fun node => node.adjust reserved used)
    (movesReserved : reserved = weight .reserved (f row).charged (db.lengthOf cid) -
      weight .reserved row.charged (db.lengthOf cid))
    (movesUsed : used = weight .used (f row).charged (db.lengthOf cid) -
      weight .used row.charged (db.lengthOf cid)) : db'.Accounted := by
  refine accounted.follow fun other node' located => ?_
  rw [nodes, Table.get?_modify] at located
  rw [chargedBytes_modify stored replicas chunks, chargedBytes_modify stored replicas chunks]
  by_cases same : other = nid
  · subst other
    rw [if_pos rfl] at located
    obtain ⟨node, before, rfl⟩ := Option.map_eq_some_iff.mp located
    refine ⟨node, before, ?_, ?_⟩ <;> simp [NodeRow.adjust, movesReserved, movesUsed]
  · rw [if_neg same] at located
    refine ⟨node', located, ?_, ?_⟩ <;> simp [Ne.symm same]

theorem modifyReplica (accounted : db.Accounted) (f : ReplicaRow → ReplicaRow)
    (kept : ∀ row, (f row).charged = row.charged) : (db.modifyReplica cid nid f).Accounted := by
  have replicas : (db.modifyReplica cid nid f).replicas =
      db.replicas.mapRows fun key row => if key = (cid, nid) then f row else row := rfl
  have charged := chargedBytes_mapRows replicas (by intro key row; split <;> simp [kept]) rfl
  refine accounted.follow fun other node located => ⟨node, located, ?_, ?_⟩ <;> simp [charged]

theorem uncharge (accounted : db.Accounted) {length : Nat} (sized : db.lengthOf cid = length) :
    (db.uncharge cid nid length).Accounted := by
  cases stored : db.replicas.get? (cid, nid) with
  | none => simpa [Database.uncharge, stored] using accounted
  | some row =>
      rw [db.uncharge_eq]
      refine accounted.modify (fun row => { row with charged := .none }) stored rfl rfl rfl ?_ ?_ <;>
        cases charge : row.charged <;> simp [weight, owed, stored, charge, sized]

theorem settle (accounted : db.Accounted) {row : ReplicaRow} {length : Nat}
    (stored : db.replicas.get? (cid, nid) = some row) (charged : row.charged = .reserved)
    (sized : db.lengthOf cid = length) : (db.settle cid nid length).Accounted := by
  rw [db.settle_eq]
  refine accounted.modify (fun row => { row with state := .valid, charged := .used }) stored
    rfl rfl rfl ?_ ?_ <;> simp [weight, charged, sized]

theorem reserveOn (accounted : db.Accounted) {volume : Ident} {length : Nat}
    (free : ∀ old, db.replicas.get? (cid, nid) = some old → old.charged = .none)
    (sized : db.lengthOf cid = length) : (db.reserveOn cid nid volume length).Accounted := by
  have replicas : (db.reserveOn cid nid volume length).replicas =
      db.replicas.upsert (cid, nid) ⟨volume, .reserved, .reserved⟩
        fun _ => ⟨volume, .reserved, .reserved⟩ := rfl
  have charged := chargedBytes_upsert _ replicas rfl free
  simp only [sized] at charged
  refine accounted.follow fun other node' located => ?_
  rw [charged .reserved (by decide), charged .used (by decide)]
  simp only [db.reserveOn_eq, Table.get?_modify] at located
  by_cases same : other = nid
  · subst other
    rw [if_pos rfl] at located
    obtain ⟨node, before, rfl⟩ := Option.map_eq_some_iff.mp located
    refine ⟨node, before, ?_, ?_⟩ <;> simp [NodeRow.adjust, weight]
  · rw [if_neg same] at located
    refine ⟨node', located, ?_, ?_⟩ <;> simp [Ne.symm same]

end Accounted

end Database

end FileServer.Metadata
