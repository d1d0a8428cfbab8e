import FileServer.Metadata.Accounting
import FileServer.Metadata.Growth

/-!
# The helpers as moves

A helper that rewrites one replica row, one task row or the counters of one
node is one move; what remains to be shown is the move of that row.
-/

namespace FileServer.Metadata

open FileServer.Relational FileServer.Transition

theorem SameNode.refl (node : NodeRow) : SameNode node node := ⟨rfl, rfl, rfl, rfl⟩

theorem SameNode.adjust (node : NodeRow) (reserved used : Int) :
    SameNode node (node.adjust reserved used) := ⟨rfl, rfl, rfl, rfl⟩

theorem SameNode.trans {first second third : NodeRow} (earlier : SameNode first second)
    (later : SameNode second third) : SameNode first third :=
  ⟨later.inst.trans earlier.inst, later.volume.trans earlier.volume,
    later.heartbeat.trans earlier.heartbeat, later.capacity.trans earlier.capacity⟩

/-- The registrations stay, and a counter grows only into free capacity. -/
structure NodesKept (db db' : Database) : Prop where
  nodes : ∀ nid, Option.Rel SameNode (db.nodes.get? nid) (db'.nodes.get? nid)
  budget : ∀ nid old new, db.nodes.get? nid = some old → db'.nodes.get? nid = some new →
    new.reserved + new.usedBytes ≤ old.reserved + old.usedBytes ∨
      new.reserved + new.usedBytes ≤ new.capacity

namespace NodesKept

variable {db db' db'' : Database}

theorem of_eq (nodes : db'.nodes = db.nodes) : NodesKept db db' where
  nodes := by
    intro nid
    rw [nodes]
    cases db.nodes.get? nid with
    | none => exact .none
    | some node => exact .some (.refl node)
  budget := by
    intro nid old new before after
    rw [nodes] at after
    exact .inl (by rw [Option.some.inj (before.symm.trans after)])

theorem trans (earlier : NodesKept db db') (later : NodesKept db' db'') : NodesKept db db'' where
  nodes := by
    intro nid
    have first := earlier.nodes nid
    have second := later.nodes nid
    generalize db.nodes.get? nid = before at first
    generalize db'.nodes.get? nid = between at first second
    generalize db''.nodes.get? nid = after at second
    cases first with
    | none => cases second with
      | none => exact .none
    | some same => cases second with
      | some same' => exact .some (same.trans same')
  budget := by
    intro nid old new before after
    have related := earlier.nodes nid
    have kept := later.nodes nid
    cases between : db'.nodes.get? nid with
    | none => simp [before, between] at related
    | some node =>
        rw [between, after, Option.rel_some_some] at kept
        have first := earlier.budget nid old node before between
        have second := later.budget nid node new between after
        have capacity := kept.capacity
        omega

theorem adjust {nid : NodeId} {reserved used : Int}
    (nodes : db'.nodes = db.nodes.modify nid fun node => node.adjust reserved used)
    (room : ∀ node, db.nodes.get? nid = some node → reserved + used ≤ 0 ∨
      node.reserved + reserved + (node.usedBytes + used) ≤ node.capacity) : NodesKept db db' where
  nodes := by
    intro other
    rw [nodes, Table.get?_modify]
    cases db.nodes.get? other with
    | none => split <;> exact .none
    | some node =>
        split
        · exact .some (.adjust node reserved used)
        · exact .some (.refl node)
  budget := by
    intro other old new before after
    rw [nodes, Table.get?_modify, before] at after
    by_cases here : other = nid
    · subst other
      rw [if_pos rfl, Option.map_some, Option.some.injEq] at after
      subst new
      have fits := room old before
      simp only [NodeRow.adjust]
      omega
    · rw [if_neg here, Option.some.injEq] at after
      exact .inl (by rw [after])

end NodesKept

/-- Objects, uploads, chunks and instances are left alone. -/
structure SameLife (db db' : Database) : Prop where
  objects : db'.objects = db.objects
  uploads : db'.uploads = db.uploads
  chunks : db'.chunks = db.chunks
  instances : db'.instances = db.instances

namespace SameLife

variable {db db' : Database}

theorem phase (same : SameLife db db') (cid : Ident) : db'.phase cid = db.phase cid :=
  phase_congr same.objects same.uploads (by rw [same.chunks])

theorem life (same : SameLife db db') {focus : Focus} {drawn : List Ident} :
    LifeMove focus drawn db db' :=
  .same same.objects same.uploads same.chunks

end SameLife

theorem Database.uncharge_same (db : Database) (cid : Ident) (nid : NodeId) (length : Nat) :
    SameLife db (db.uncharge cid nid length) := by
  rw [uncharge_eq]
  exact ⟨rfl, rfl, rfl, rfl⟩

namespace Moves

variable {focus : Focus} {drawn : List Ident} {db db' : Database}

theorem rows_modify {cid : Ident} {nid : NodeId} {f : ReplicaRow → ReplicaRow}
    (replicas : db'.replicas = db.replicas.modify (cid, nid) f)
    (row : ∀ row, db.replicas.get? (cid, nid) = some row →
      RowMove focus db db' cid nid (some row) (some (f row))) (other : Ident) (node : NodeId) :
    RowMove focus db db' other node (db.replicas.get? (other, node))
      (db'.replicas.get? (other, node)) := by
  rw [replicas, Table.get?_modify]
  by_cases same : (other, node) = (cid, nid)
  · obtain ⟨rfl, rfl⟩ := Prod.mk.inj same
    rw [if_pos rfl]
    cases stored : db.replicas.get? (other, node) with
    | none => exact .keep none
    | some old => exact row old stored
  · rw [if_neg same]
    exact .keep _

theorem rows_keep (replicas : db'.replicas = db.replicas) (cid : Ident) (nid : NodeId) :
    RowMove focus db db' cid nid (db.replicas.get? (cid, nid)) (db'.replicas.get? (cid, nid)) := by
  rw [replicas]
  exact .keep _

theorem tasks_modify {key : TaskKey} {f : TaskRow → TaskRow}
    (tasks : db'.tasks = db.tasks.modify key f)
    (task : ∀ task, db.tasks.get? key = some task →
      TaskMove focus db' key (some task) (some (f task))) (other : TaskKey) :
    TaskMove focus db' other (db.tasks.get? other) (db'.tasks.get? other) := by
  rw [tasks, Table.get?_modify]
  by_cases same : other = key
  · subst other
    rw [if_pos rfl]
    cases stored : db.tasks.get? key with
    | none => exact .keep none
    | some old => exact task old stored
  · rw [if_neg same]
    exact .keep _

theorem tasks_keep (tasks : db'.tasks = db.tasks) (key : TaskKey) :
    TaskMove focus db' key (db.tasks.get? key) (db'.tasks.get? key) := by
  rw [tasks]
  exact .keep _

theorem ofLocal (same : SameLife db db')
    (kept : NodesKept db db')
    (rows : ∀ cid nid, RowMove focus db db' cid nid (db.replicas.get? (cid, nid))
      (db'.replicas.get? (cid, nid)))
    (tasks : ∀ key, TaskMove focus db' key (db.tasks.get? key) (db'.tasks.get? key))
    (balance : db.Accounted → db'.Accounted) : Moves focus drawn db db' where
  rows := rows
  tasks := tasks
  life := same.life
  nodes := .same kept.nodes same.instances
  balance := balance
  budget := kept.budget
  newlyDeleted := fun cid deleted before => absurd (same.phase cid ▸ deleted) before

theorem ofRow {cid : Ident} {nid : NodeId} (f : ReplicaRow → ReplicaRow) (reserved used : Int)
    (same : SameLife db db') (tasks : db'.tasks = db.tasks)
    (replicas : db'.replicas = db.replicas.modify (cid, nid) f)
    (nodes : db'.nodes = db.nodes.modify nid fun node => node.adjust reserved used)
    (row : ∀ row, db.replicas.get? (cid, nid) = some row →
      RowMove focus db db' cid nid (some row) (some (f row)))
    (balance : db.Accounted → db'.Accounted) (shrinks : reserved + used ≤ 0) :
    Moves focus drawn db db' :=
  ofLocal same (.adjust nodes fun _ _ => .inl shrinks) (rows_modify replicas row)
    (tasks_keep tasks) balance

theorem ofMark {cid : Ident} {nid : NodeId} (f : ReplicaRow → ReplicaRow)
    (kept : ∀ row, (f row).charged = row.charged)
    (row : ∀ row, db.replicas.get? (cid, nid) = some row →
      RowMove focus db (db.modifyReplica cid nid f) cid nid (some row) (some (f row))) :
    Moves focus drawn db (db.modifyReplica cid nid f) :=
  ofLocal ⟨rfl, rfl, rfl, rfl⟩ (.of_eq rfl) (rows_modify rfl row) (tasks_keep rfl)
    fun accounted => accounted.modifyReplica f kept

theorem ofTasks (same : SameLife db db') (nodes : db'.nodes = db.nodes)
    (replicas : db'.replicas = db.replicas)
    (tasks : ∀ key, TaskMove focus db' key (db.tasks.get? key) (db'.tasks.get? key)) :
    Moves focus drawn db db' :=
  ofLocal same (.of_eq nodes) (rows_keep replicas) tasks
    fun accounted => accounted.congr nodes same.chunks replicas

theorem ofTask {key : TaskKey} (f : TaskRow → TaskRow)
    (task : ∀ task, db.tasks.get? key = some task →
      TaskMove focus (db.modifyTask key f) key (some task) (some (f task))) :
    Moves focus drawn db (db.modifyTask key f) :=
  ofTasks ⟨rfl, rfl, rfl, rfl⟩ rfl rfl (tasks_modify rfl task)

/-- Only objects, uploads and the contents of chunks change, and nothing is
deleted. -/
theorem ofLife (life : LifeMove focus drawn db db') (nodes : db'.nodes = db.nodes)
    (replicas : db'.replicas = db.replicas) (tasks : db'.tasks = db.tasks)
    (instances : db'.instances = db.instances)
    (lengths : ∀ cid, db'.lengthOf cid = db.lengthOf cid)
    (live : ∀ cid, db'.phase cid = some .deleted → db.phase cid = some .deleted) :
    Moves focus drawn db db' where
  rows := rows_keep replicas
  tasks := tasks_keep tasks
  life := life
  nodes := .same (NodesKept.of_eq nodes).nodes instances
  balance := by
    intro accounted
    refine accounted.follow fun other node located => ⟨node, nodes ▸ located, ?_, ?_⟩ <;>
      simp only [Database.chargedBytes, replicas, lengths, sub_self]
  budget := (NodesKept.of_eq nodes).budget
  newlyDeleted := fun cid deleted before => absurd (live cid deleted) before

/-- The contents of a staging chunk change. -/
theorem ofChunk {cid : Ident} (f : ChunkRow → ChunkRow) (kept : ∀ row, (f row).length = row.length)
    (owner : ∀ row, (f row).upload = row.upload)
    (life : LifeMove focus drawn db { db with chunks := db.chunks.modify cid f }) :
    Moves focus drawn db { db with chunks := db.chunks.modify cid f } := by
  refine ofLife life rfl rfl rfl rfl ?_ ?_
  · intro other
    simp only [Database.lengthOf, Table.get?_modify]
    split
    · cases db.chunks.get? other <;> simp [kept]
    · rfl
  · intro other deleted
    have same : Database.phase { db with chunks := db.chunks.modify cid f } other =
        db.phase other := by
      apply phase_congr
      · rfl
      · rfl
      simp only [Table.get?_modify]
      split
      · cases db.chunks.get? other <;> simp [owner]
      · rfl
    exact same ▸ deleted

theorem settle {cid : Ident} {nid : NodeId} {row : ReplicaRow} {length : Nat}
    (owner : focus.Settles cid nid) (stored : db.replicas.get? (cid, nid) = some row) (reserved : row.state = .reserved)
    (charged : row.charged = .reserved) (sized : db.lengthOf cid = length) :
    Moves focus drawn db (db.settle cid nid length) := by
  have balance : db.Accounted → (db.settle cid nid length).Accounted :=
    fun accounted => accounted.settle stored charged sized
  rw [db.settle_eq] at balance ⊢
  refine ofRow (fun row => { row with state := .valid, charged := .used }) _ _
    ⟨rfl, rfl, rfl, rfl⟩ rfl rfl rfl ?_ balance (by omega)
  intro other located
  rw [Option.some.inj (located.symm.trans stored)]
  exact .settle row owner reserved charged

theorem uncharge {cid : Ident} {nid : NodeId} {length : Nat} (sized : db.lengthOf cid = length)
    (settled : ∀ row, db.replicas.get? (cid, nid) = some row → row.state = .reserved →
      db.phase cid = some .published) :
    Moves focus drawn db (db.uncharge cid nid length) := by
  have balance : db.Accounted → (db.uncharge cid nid length).Accounted :=
    fun accounted => accounted.uncharge sized
  rw [db.uncharge_eq] at balance ⊢
  refine ofRow (fun row => { row with charged := .none }) _ _
    ⟨rfl, rfl, rfl, rfl⟩ rfl rfl rfl ?_ balance ?_
  · intro row stored
    exact .refund row fun reserved => settled row stored reserved
  · simp only [Database.owed]
    split <;> split <;> omega

theorem enqueue {now : Time} {kind : TaskKind} {cid : Ident} {nid : Option NodeId} {delay : Nat}
    (known : db.phase cid ≠ none ∨ focus = .review cid)
    (published : kind = .repair →
      nid = none ∧ (db.phase cid = some .published ∨ focus = .report cid)) :
    Moves focus drawn db (db.enqueue now kind cid nid delay) := by
  refine ofTasks ⟨rfl, rfl, rfl, rfl⟩ rfl rfl fun key => ?_
  rw [db.enqueue_eq]
  simp only [Table.get?_upsert]
  by_cases same : key = ⟨kind, cid, nid⟩
  · subst key
    rw [if_pos rfl]
    cases stored : db.tasks.get? ⟨kind, cid, nid⟩ with
    | none => exact .enqueue none _ (by simp) rfl known published
    | some task =>
        simp only [Option.elim_some]
        by_cases done : task.state = .done
        · rw [if_pos done]
          exact .enqueue (some task) _ (by simpa using done) rfl known published
        · rw [if_neg done]
          exact .keep _
  · rw [if_neg same]
    exact .keep _

theorem reserveOn (consistent : Consistent db) {c : Config} {now : Time} {cid : Ident}
    {nid : NodeId} {node : NodeRow} {length : Nat} (located : db.nodes.get? nid = some node)
    (admits : node.Admits c now length) (sized : db.lengthOf cid = length)
    (free : ∀ row, db.replicas.get? (cid, nid) = some row → row.state = .gone)
    (alone : ∀ other row, db.replicas.get? (cid, other) = some row → row.state ≠ .reserved)
    (published : db.phase cid = some .published) (owner : db.Outstanding ⟨.repair, cid, none⟩) :
    Moves focus drawn db (db.reserveOn cid nid node.volume length) := by
  have balance : db.Accounted → (db.reserveOn cid nid node.volume length).Accounted :=
    fun accounted => accounted.reserveOn
      (fun row stored => consistent.goneUncharged cid nid row stored (free row stored)) sized
  rw [db.reserveOn_eq] at balance ⊢
  refine ofLocal ⟨rfl, rfl, rfl, rfl⟩ (.adjust rfl fun other before => ?_) ?_ (tasks_keep rfl) balance
  · obtain rfl := Option.some.inj (located.symm.trans before)
    have room := admits.2
    omega
  · intro other target
    simp only [Table.get?_upsert]
    by_cases same : (other, target) = (cid, nid)
    · obtain ⟨rfl, rfl⟩ := Prod.mk.inj same
      rw [if_pos rfl]
      have row : (db.replicas.get? (other, target)).elim
          (⟨node.volume, .reserved, .reserved⟩ : ReplicaRow)
          (fun _ => ⟨node.volume, .reserved, .reserved⟩) = ⟨node.volume, .reserved, .reserved⟩ := by
        cases db.replicas.get? (other, target) <;> rfl
      rw [row]
      refine .reserve _ node.volume free ⟨node.adjust length 0, by simp [located], rfl⟩ ?_
        (.inl published)
      refine fun _ => ⟨alone, fun another different => ?_, owner⟩
      simp [Table.get?_upsert, different]
    · rw [if_neg same]
      exact .keep _

end Moves

end FileServer.Metadata
