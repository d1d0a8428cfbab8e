import FileServer.Metadata.Asides
import FileServer.Metadata.Hashes
import FileServer.Cluster.Upkeep

/-!
# Copies during the upkeep

Which copies count and which nodes are spare is settled when the upkeep begins:
no step changes it but the second transaction of a repair of the chunk, which
turns a spare node into one that keeps a copy.
-/

namespace FileServer.Cluster

open FileServer.Metadata FileServer.Relational FileServer.Storage FileServer.Transition

def SameNodes (db db' : Database) : Prop :=
  ∀ nid, (db'.nodes.get? nid).map (fun node => (node.inst, node.volume)) =
    (db.nodes.get? nid).map fun node => (node.inst, node.volume)

namespace SameNodes

variable {db db' db'' : Database}

theorem of_rel (nodes : ∀ nid, Option.Rel SameNode (db.nodes.get? nid) (db'.nodes.get? nid)) :
    SameNodes db db' := by
  intro nid
  have related := nodes nid
  generalize db.nodes.get? nid = old at related
  generalize db'.nodes.get? nid = new at related
  cases related with
  | none => rfl
  | some same => simp [same.inst, same.volume]

theorem refl (db : Database) : SameNodes db db := fun _ => rfl

theorem trans (earlier : SameNodes db db') (later : SameNodes db' db'') : SameNodes db db'' :=
  fun nid => (later nid).trans (earlier nid)

theorem before (same : SameNodes db db') {nid : NodeId} {node' : NodeRow}
    (stored : db'.nodes.get? nid = some node') : ∃ node, db.nodes.get? nid = some node ∧
      node.inst = node'.inst ∧ node.volume = node'.volume := by
  have related := same nid
  rw [stored, Option.map_some, eq_comm, Option.map_eq_some_iff] at related
  obtain ⟨node, located, equal⟩ := related
  exact ⟨node, located, (Prod.mk.inj equal).1, (Prod.mk.inj equal).2⟩

theorem after (same : SameNodes db db') {nid : NodeId} {node : NodeRow}
    (stored : db.nodes.get? nid = some node) : ∃ node', db'.nodes.get? nid = some node' ∧
      node'.inst = node.inst ∧ node'.volume = node.volume := by
  have related := same nid
  rw [stored, Option.map_some, Option.map_eq_some_iff] at related
  obtain ⟨node', located, equal⟩ := related
  exact ⟨node', located, (Prod.mk.inj equal).1, (Prod.mk.inj equal).2⟩

end SameNodes

namespace Deployment

variable {s : Site} {c : Config} {κ κ' κ'' : Deployment} {cid : Ident} {nid : NodeId}

theorem readable_iff : κ.Readable s cid nid ↔ ∃ inst chunk, κ.running nid = some inst ∧
    κ.core.db.chunks.get? cid = some chunk ∧
    (Node.read s.digest ((κ.disks (nid, (s.hosts inst).2)).get? cid) chunk.length
      chunk.sha).toOption.isSome = true := by
  simp only [Readable, Option.mem_def, node_eq_some]
  constructor
  · rintro ⟨_, ⟨inst, running, rfl⟩, chunk, stored, read⟩
    exact ⟨inst, chunk, running, stored, read⟩
  · rintro ⟨inst, chunk, running, stored, read⟩
    exact ⟨_, ⟨inst, running, rfl⟩, chunk, stored, read⟩

theorem mem_nodeIds : nid ∈ κ.nodeIds ↔ ∃ node, κ.core.db.nodes.get? nid = some node := by
  simp only [nodeIds, List.mem_map, Prod.exists, exists_and_right, exists_eq_right,
    Table.mem_rows_iff]

theorem nodeIds_nodup : κ.nodeIds.Nodup := κ.core.db.nodes.keysNodup

theorem mem_kept : nid ∈ κ.kept s cid ↔ nid ∈ κ.nodeIds ∧ κ.Keeps s cid nid := by
  simp [kept]

theorem mem_spare : nid ∈ κ.spare cid ↔ nid ∈ κ.nodeIds ∧ κ.Spare cid nid := by
  simp [spare]

theorem kept_nodup : (κ.kept s cid).Nodup := nodeIds_nodup.filter _

theorem spare_nodup : (κ.spare cid).Nodup := nodeIds_nodup.filter _

theorem Keeps.not_spare (keeps : κ.Keeps s cid nid) : ¬κ.Spare cid nid := by
  obtain ⟨row, stored, state⟩ := keeps
  intro spare
  rcases spare row stored with gone | reserved
  · rcases state with valid | ⟨unverified, _⟩ <;> simp_all
  · rcases state with valid | ⟨unverified, _⟩ <;> simp_all

def Charged (κ : Deployment) (cid : Ident) : Prop :=
  ∀ nid row, κ.core.db.replicas.get? (cid, nid) = some row → row.state = .reserved →
    row.charged = .reserved

/-- Steps of the upkeep by which the nodes `made` come to keep copies. -/
structure Copies (s : Site) (cid : Ident) (made : List NodeId) (κ κ' : Deployment) : Prop where
  running : κ'.running = κ.running
  nodes : SameNodes κ.core.db κ'.core.db
  chunks : κ'.core.db.chunks = κ.core.db.chunks
  known : κ'.core.db.chunkObject cid = κ.core.db.chunkObject cid
  keeps : ∀ nid, κ'.Keeps s cid nid ↔ κ.Keeps s cid nid ∨ nid ∈ made
  spare : ∀ nid, κ'.Spare cid nid ↔ κ.Spare cid nid ∧ nid ∉ made
  readable : ∀ nid, κ.Keeps s cid nid → (κ'.Readable s cid nid ↔ κ.Readable s cid nid)
  charged : κ'.Charged cid ↔ κ.Charged cid
  verified : ∀ nid row', κ'.core.db.replicas.get? (cid, nid) = some row' →
    row'.state = .unverified → ∃ row, κ.core.db.replicas.get? (cid, nid) = some row ∧
      row.state = .unverified
  taken : ∀ nid ∈ made, nid ∈ κ.nodeIds ∧ κ.Spare cid nid
  distinct : made.Nodup

/-- No copy is made. -/
abbrev Steady (s : Site) (cid : Ident) (κ κ' : Deployment) : Prop := Copies s cid [] κ κ'

namespace Copies

variable {made more : List NodeId}

theorem nodeIds (copies : Copies s cid made κ κ') : nid ∈ κ'.nodeIds ↔ nid ∈ κ.nodeIds := by
  simp only [mem_nodeIds]
  constructor
  · rintro ⟨node, stored⟩
    obtain ⟨old, located, _⟩ := copies.nodes.before stored
    exact ⟨old, located⟩
  · rintro ⟨node, stored⟩
    obtain ⟨new, located, _⟩ := copies.nodes.after stored
    exact ⟨new, located⟩

theorem trans (earlier : Copies s cid made κ κ') (later : Copies s cid more κ' κ'') :
    Copies s cid (made ++ more) κ κ'' where
  running := later.running.trans earlier.running
  nodes := earlier.nodes.trans later.nodes
  chunks := later.chunks.trans earlier.chunks
  known := later.known.trans earlier.known
  keeps := by
    intro nid
    rw [later.keeps, earlier.keeps, or_assoc, List.mem_append]
  spare := by
    intro nid
    rw [later.spare, earlier.spare, and_assoc, List.mem_append, not_or]
  readable := fun nid keeps =>
    (later.readable nid ((earlier.keeps nid).mpr (.inl keeps))).trans (earlier.readable nid keeps)
  charged := later.charged.trans earlier.charged
  verified := by
    intro nid row'' stored unverified
    obtain ⟨row', stored', unverified'⟩ := later.verified nid row'' stored unverified
    exact earlier.verified nid row' stored' unverified'
  taken := by
    intro nid membership
    rcases List.mem_append.mp membership with first | second
    · exact earlier.taken nid first
    · obtain ⟨registered, spare⟩ := later.taken nid second
      exact ⟨earlier.nodeIds.mp registered, ((earlier.spare nid).mp spare).1⟩
  distinct := by
    refine earlier.distinct.append later.distinct fun nid first second => ?_
    exact ((earlier.spare nid).mp (later.taken nid second).2).2 first

theorem kept_length (copies : Copies s cid made κ κ') :
    (κ'.kept s cid).length = (κ.kept s cid).length + made.length := by
  have same : (κ'.kept s cid).Perm (κ.kept s cid ++ made) := by
    rw [List.perm_ext_iff_of_nodup kept_nodup]
    · intro nid
      rw [List.mem_append, mem_kept, mem_kept, copies.nodeIds, copies.keeps]
      constructor
      · rintro ⟨registered, keeps | new⟩
        · exact .inl ⟨registered, keeps⟩
        · exact .inr new
      · rintro (⟨registered, keeps⟩ | new)
        · exact ⟨registered, .inl keeps⟩
        · exact ⟨(copies.taken nid new).1, .inr new⟩
    · refine kept_nodup.append copies.distinct fun nid old new => ?_
      exact (mem_kept.mp old).2.not_spare (copies.taken nid new).2
  rw [same.length_eq, List.length_append]

theorem spare_length (copies : Copies s cid made κ κ') :
    (κ'.spare cid).length + made.length = (κ.spare cid).length := by
  have same : (κ.spare cid).Perm (κ'.spare cid ++ made) := by
    rw [List.perm_ext_iff_of_nodup spare_nodup]
    · intro nid
      rw [List.mem_append, mem_spare, mem_spare, copies.nodeIds, copies.spare]
      constructor
      · rintro ⟨registered, spare⟩
        by_cases new : nid ∈ made
        · exact .inr new
        · exact .inl ⟨registered, spare, new⟩
      · rintro (⟨registered, spare, _⟩ | new)
        · exact ⟨registered, spare⟩
        · exact copies.taken nid new
    · refine spare_nodup.append copies.distinct fun nid old new => ?_
      exact ((copies.spare nid).mp (mem_spare.mp old).2).2 new
  rw [same.length_eq, List.length_append]

theorem refl (κ : Deployment) : Steady s cid κ κ where
  running := rfl
  nodes := .refl _
  chunks := rfl
  known := rfl
  keeps := by simp
  spare := by simp
  readable := fun _ _ => .rfl
  charged := .rfl
  verified := fun _ row stored unverified => ⟨row, stored, unverified⟩
  taken := by simp
  distinct := List.nodup_nil

end Copies

/-- What a step leaves alone that is not about the chunk. -/
structure Untouched (cid : Ident) (κ κ' : Deployment) : Prop where
  aside : Aside cid κ.core.db κ'.core.db
  nodes : SameNodes κ.core.db κ'.core.db
  running : κ'.running = κ.running
  files : ∀ disk, (κ'.disks disk).get? cid = (κ.disks disk).get? cid

namespace Untouched

variable (untouched : Untouched cid κ κ')
include untouched

theorem readable (nid : NodeId) : κ'.Readable s cid nid ↔ κ.Readable s cid nid := by
  simp only [readable_iff, untouched.running, untouched.aside.chunks, untouched.files]

theorem current (view : NodeView) : κ'.Current view ↔ κ.Current view := by
  simp only [Current, Option.mem_def]
  constructor
  · rintro ⟨node', stored, volume, inst⟩
    obtain ⟨node, before, sameInst, sameVolume⟩ := untouched.nodes.before stored
    exact ⟨node, before, sameVolume.trans volume, sameInst.trans inst⟩
  · rintro ⟨node, stored, volume, inst⟩
    obtain ⟨node', after, sameInst, sameVolume⟩ := untouched.nodes.after stored
    exact ⟨node', after, sameVolume.trans volume, sameInst.trans inst⟩

theorem steady_of_verdict
    (verdict : ∀ nid, (∃ row, κ.core.db.replicas.get? (cid, nid) = some row ∧
        row.state = .unverified) →
      ((κ'.verdict cid nid).getD (κ'.Readable s cid nid) = true ↔
        (κ.verdict cid nid).getD (κ.Readable s cid nid) = true)) : Steady s cid κ κ' where
  running := untouched.running
  nodes := untouched.nodes
  chunks := untouched.aside.chunks
  known := untouched.aside.known
  keeps := by
    intro nid
    simp only [Keeps, Option.mem_def, untouched.aside.rows, List.not_mem_nil, or_false]
    constructor <;> rintro ⟨row, stored, valid | ⟨unverified, judged⟩⟩
    · exact ⟨row, stored, .inl valid⟩
    · exact ⟨row, stored, .inr ⟨unverified, (verdict nid ⟨row, stored, unverified⟩).mp judged⟩⟩
    · exact ⟨row, stored, .inl valid⟩
    · exact ⟨row, stored, .inr ⟨unverified, (verdict nid ⟨row, stored, unverified⟩).mpr judged⟩⟩
  spare := by simp [Spare, untouched.aside.rows]
  readable := fun nid _ => untouched.readable nid
  charged := by simp only [Charged, untouched.aside.rows]
  verified := by
    intro nid row stored unverified
    rw [untouched.aside.rows] at stored
    exact ⟨row, stored, unverified⟩
  taken := by simp
  distinct := List.nodup_nil

theorem steady (maintenance : κ'.core.maintenance = κ.core.maintenance)
    (calls : κ'.calls .reconcile = κ.calls .reconcile) : Steady s cid κ κ' := by
  refine untouched.steady_of_verdict fun nid _ => ?_
  have verdict : κ'.verdict cid nid = κ.verdict cid nid := by
    simp only [Deployment.verdict, maintenance, calls, untouched.current]
  have readable : (κ'.Readable s cid nid : Bool) = (κ.Readable s cid nid : Bool) :=
    decide_eq_decide.mpr (untouched.readable nid)
  rw [verdict, readable]

end Untouched

end Deployment

end FileServer.Cluster
