import FileServer.Metadata.Invariant

/-!
# Reserved bytes

Only the creation of an upload and the beginning of a repair reserve rows.
What they add on a node fits the free bytes it has reported, less what was
already reserved there.
-/

namespace FileServer.Metadata

open FileServer.Relational FileServer.Transition

namespace Database

/-- What the reserved rows on a node add up to. -/
def pledged (db : Database) (weight : Ident → Int) (nid : NodeId) : Int :=
  db.replicas.sum fun key row => if key.2 = nid ∧ row.state = .reserved then weight key.1 else 0

/-- The rows that are reserved were reserved before. -/
def Releases (db db' : Database) : Prop :=
  ∀ key row, db'.replicas.get? key = some row → row.state = .reserved →
    ∃ old, db.replicas.get? key = some old ∧ old.state = .reserved

variable {db db' : Database} {c : Config} {now : Time}

theorem Releases.pledged_le (releases : Releases db db') {weight : Ident → Int}
    (nonneg : ∀ cid, 0 ≤ weight cid) (nid : NodeId) :
    db'.pledged weight nid ≤ db.pledged weight nid := by
  refine Table.sum_le_sum _ (fun key row _ => ?_) fun key row stored => ?_
  · split
    · exact nonneg key.1
    · exact le_refl _
  · split
    · next counted =>
        obtain ⟨old, before, reserved⟩ := releases key row stored counted.2
        simp [before, reserved, counted.1]
    · cases before : db.replicas.get? key with
      | none => exact le_refl _
      | some old =>
          simp only [Option.elim_some]
          split
          · exact nonneg key.1
          · exact le_refl _

/-- One chunk counts differently. -/
theorem pledged_weight {weight weight' : Ident → Int} {cid : Ident}
    (others : ∀ other, other ≠ cid → weight' other = weight other) (nid : NodeId) :
    db.pledged weight' nid = db.pledged weight nid + (db.replicas.get? (cid, nid)).elim 0 fun row =>
      if row.state = .reserved then weight' cid - weight cid else 0 := by
  refine Table.sum_add_single _ fun key row _ => ?_
  by_cases same : key = (cid, nid)
  · subst same
    by_cases reserved : row.state = .reserved <;> simp [reserved]
  · rw [if_neg same, add_zero]
    by_cases here : key.2 = nid
    · have other : key.1 ≠ cid := fun equal => same (Prod.ext equal here)
      rw [others key.1 other]
    · simp [here]

theorem pledged_congr {weight weight' : Ident → Int}
    (same : ∀ cid nid row, db.replicas.get? (cid, nid) = some row → weight' cid = weight cid)
    (nid : NodeId) : db.pledged weight' nid = db.pledged weight nid := by
  refine Table.sum_congr _ fun key row stored => ?_
  rw [same key.1 key.2 row stored]

namespace Releases

theorem ofReplicas (replicas : db'.replicas = db.replicas) : Releases db db' :=
  fun _ row stored reserved => ⟨row, replicas ▸ stored, reserved⟩

theorem refl (db : Database) : Releases db db := .ofReplicas rfl

theorem trans {db'' : Database} (earlier : Releases db db') (later : Releases db' db'') :
    Releases db db'' := by
  intro key row stored reserved
  obtain ⟨old, before, reserved'⟩ := later key row stored reserved
  exact earlier key old before reserved'

theorem ofRows (f : Ident × NodeId → ReplicaRow → ReplicaRow)
    (rows : ∀ key, db'.replicas.get? key = (db.replicas.get? key).map (f key))
    (kept : ∀ key row, (f key row).state = .reserved → row.state = .reserved) :
    Releases db db' := by
  intro key row stored reserved
  rw [rows] at stored
  obtain ⟨old, before, rfl⟩ := Option.map_eq_some_iff.mp stored
  exact ⟨old, before, kept key old reserved⟩

theorem modify (f : ReplicaRow → ReplicaRow) (cid : Ident) (nid : NodeId)
    (kept : ∀ row, (f row).state = .reserved → row.state = .reserved) :
    Releases db (db.modifyReplica cid nid f) := by
  refine ofRows (fun key row => if key = (cid, nid) then f row else row) (fun key => ?_) ?_
  · simp only [modifyReplica, Table.get?_modify]
    split <;> simp
  · intro key row reserved
    split at reserved
    · exact kept row reserved
    · exact reserved

theorem uncharge (cid : Ident) (nid : NodeId) (length : Nat) :
    Releases db (db.uncharge cid nid length) := by
  rw [uncharge_eq]
  exact modify (fun row => { row with charged := .none }) cid nid fun _ => id

theorem settle (cid : Ident) (nid : NodeId) (length : Nat) :
    Releases db (db.settle cid nid length) := by
  rw [settle_eq]
  exact modify (fun row => { row with state := .valid, charged := .used }) cid nid (by simp)

theorem retire {upload : Ident} {row : UploadRow} (stored : db.uploads.get? upload = some row)
    (state : UploadState) : Releases db (Database.retire c now db upload state) := by
  obtain ⟨looped, retirement⟩ := retire_ok c now stored state
  refine ofRows (fun key row => if ∃ chunk ∈ db.chunks.get? key.1, chunk.upload = upload then
    retiredRow row else row) (fun key => retirement.get?_replicas key.1 key.2) ?_
  intro key row reserved
  split at reserved
  · simp only [retiredRow] at reserved
    split at reserved <;> cases reserved
  · exact reserved

theorem report (cid : Ident) (nid : NodeId) :
    Releases db (db.modifyReplica cid nid fun row =>
      if row.state = .valid then { row with state := .bad } else row) := by
  refine modify _ cid nid fun row reserved => ?_
  split at reserved
  · cases reserved
  · exact reserved

theorem dispatch {ident : Nat → Ident} {owner : String} {command : Command} {reply : Reply}
    (dispatched : Database.dispatch c now ident db owner command = .ok (reply, db'))
    (other : ∀ size name, command ≠ .init size name) : Releases db db' := by
  simp only [Database.dispatch, bind_eq_ok] at dispatched
  obtain ⟨_, _, dispatched⟩ := dispatched
  cases command with
  | init size name => exact absurd rfl (other size name)
  | prepare upload seq sha =>
      obtain ⟨_, _, _, _, _, _, _, _, _, _, _, _, _, _, _, rfl, _⟩ := prepare_ok dispatched
      exact ofReplicas rfl
  | complete upload =>
      obtain ⟨_, _, _, _, _, _, ⟨_, _, rfl⟩ | ⟨_, _, _, _, rfl⟩⟩ := complete_ok dispatched <;>
        exact ofReplicas rfl
  | cancel upload =>
      simp only [cancel, bind_eq_ok, Prod.exists, active_ok] at dispatched
      obtain ⟨row, object, ⟨stored, _⟩, outcome⟩ := dispatched
      split at outcome
      · simp only [pure_eq_ok, Prod.mk.injEq] at outcome
        exact outcome.2 ▸ .refl db
      · simp only [bind_eq_ok, pure_eq_ok, Prod.mk.injEq] at outcome
        obtain ⟨_, _, _, rfl⟩ := outcome
        exact retire stored _
  | delete oid =>
      simp only [delete, bind_eq_ok] at dispatched
      obtain ⟨object, _, _, _, outcome⟩ := dispatched
      split at outcome
      · simp only [pure_eq_ok, Prod.mk.injEq] at outcome
        exact outcome.2 ▸ .refl db
      · simp only [bind_eq_ok, found_eq_ok, pure_eq_ok, Prod.mk.injEq] at outcome
        obtain ⟨upload, selected, _, rfl⟩ := outcome
        obtain ⟨row, stored, _⟩ := db.uploadOf_eq_some selected
        exact retire stored _
  | badReplica oid cid nid =>
      simp only [badReplica, bind_eq_ok, pure_eq_ok, Prod.mk.injEq] at dispatched
      obtain ⟨_, _, _, _, _, rfl⟩ := dispatched
      exact report cid nid
  | status upload cursor | manifest oid | locations oid seq =>
      simp only [bind_eq_ok, pure_eq_ok, Prod.mk.injEq] at dispatched
      obtain ⟨_, _, _, rfl⟩ := dispatched
      exact .refl db

theorem confirmCommit {op : Confirming} {bytes : Nat}
    (committed : db.confirmCommit c now op = .ok (bytes, db')) : Releases db db' := by
  obtain ⟨_, _, settled, _, _, _, _, _, _, executed, rfl⟩ := confirmCommit_ok committed
  refine Releases.trans (foldlM_invariant (Releases db) _ op.positions ?_ executed (.refl db))
    (.ofReplicas rfl)
  intro middle position next _ kept body
  obtain ⟨row, _, rfl⟩ := confirmReplica_ok body
  split
  · exact kept.trans (settle _ _ _)
  · exact kept

theorem register {beat : Beat} (accepted : db.register c beat = .ok db') : Releases db db' := by
  refine ofRows (fun key row => if db.Remounts beat ∧ key.2 = beat.node then
    remounted beat.volume row else row)
    (fun key => (register_ok accepted).get?_replicas key.1 key.2) ?_
  intro key row reserved
  split at reserved
  · unfold remounted at reserved
    split at reserved
    · cases reserved
    · split at reserved
      · next here => exact here
      · exact reserved
  · exact reserved

theorem maintain (consistent : Consistent db) : Releases db (db.maintain c now) := by
  have refreshed : Steps .none [] db (db.refreshHealth c now) := .single refreshHealth_moves
  refine foldl_invariant (Releases db) _ _ ?_ (foldl_invariant
    (fun middle => Steps .none [] (db.refreshHealth c now) middle ∧ Releases db middle) _ _ ?_
      ⟨.refl, .ofReplicas rfl⟩).2
  · intro middle entry _ kept
    split
    · exact kept.trans (.ofReplicas rfl)
    · exact kept
  · rintro middle upload expired ⟨steps, kept⟩
    obtain ⟨row, before⟩ := mem_expiredUploads expired
    obtain ⟨row', present, _⟩ := steps.grown.uploads upload row before
    have known := steps.consistent (refreshed.consistent consistent)
    exact ⟨steps.tail (retire_moves known present (.inr rfl)), kept.trans (retire present _)⟩

theorem reviewFile (view : NodeView) (cid : Ident) :
    Releases db (db.reviewFile c now view cid) := by
  unfold Database.reviewFile
  split
  · exact .ofReplicas rfl
  · split
    · exact .ofReplicas rfl
    · split
      · exact .ofReplicas rfl
      · split <;> exact .ofReplicas rfl

theorem reverify {view : NodeView} {check : Check} {valid : Bool}
    (judged : db.reverify view check valid = .ok db') : Releases db db' := by
  obtain ⟨replica, node, stored, located, outcome⟩ := reverify_ok judged
  rcases outcome with ⟨_, _, marked, shape, rfl⟩ | ⟨_, rfl⟩
  · have kept : Releases db marked := by
      subst shape
      refine modify _ _ _ fun row reserved => ?_
      split at reserved
      · cases valid <;> cases reserved
      · exact reserved
    split
    · exact kept.trans (uncharge _ _ _)
    · exact kept
  · exact .ofReplicas rfl

theorem deleteBegin {job : Job} {deletion : Deletion}
    (begun : db.deleteBegin c now job = .ok (deletion, db')) : Releases db db' := by
  obtain ⟨nid, node, _, _, _, _, rfl, rfl⟩ := deleteBegin_ok begun
  exact modify (fun row => { row with state := .deleting }) _ nid (by simp)

theorem deleteCommit {job : Job} {deletion : Deletion}
    (committed : db.deleteCommit now job deletion = .ok db') : Releases db db' := by
  obtain ⟨node, uncharged, _, _, _, _, released, rfl⟩ := deleteCommit_ok committed
  have kept : Releases db uncharged := by
    rw [released]
    cases deletion.length with
    | none => exact .ofReplicas rfl
    | some length => exact uncharge _ _ length
  refine kept.trans (Releases.trans (modify (fun row => if row.state = .deleting then
    { row with state := .gone } else row) job.task.chunk deletion.node fun row reserved => ?_)
    (.ofReplicas rfl))
  split at reserved
  · cases reserved
  · exact reserved

theorem repairCommit {job : Job} {repair : Repair}
    (committed : db.repairCommit c now job repair = .ok db') : Releases db db' := by
  obtain ⟨_, _, _, copied, _, _, _, _, _, _, _, _, _, outcome, rfl⟩ := repairCommit_ok committed
  rcases outcome with ⟨_, rfl⟩ | ⟨_, rfl⟩
  · exact ((uncharge _ _ _).trans
      (modify (fun row => { row with state := .bad }) _ _ (by simp))).trans (.ofReplicas rfl)
  · exact (settle _ _ repair.length).trans (.ofReplicas rfl)

end Releases

/-- The bytes a transaction reserves on a node: at most `bound`, and no more
than the node has reported as free and not yet reserved. -/
def Allotted (c : Config) (now : Time) (weight : Ident → Int) (nid : NodeId) (bound : Nat)
    (db db' : Database) : Prop :=
  ∃ extra : Int, 0 ≤ extra ∧ extra ≤ bound ∧
    db'.pledged weight nid ≤ db.pledged weight nid + extra ∧
    db'.nodes.get? nid = (db.nodes.get? nid).map (fun node => node.adjust extra 0) ∧
    (extra = 0 ∨ ∃ node, db.nodes.get? nid = some node ∧ node.Alive c now ∧
      extra ≤ node.freeBytes - node.reserved)

namespace Allotted

variable {weight : Ident → Int} {nid : NodeId} {bound bound' : Nat}

theorem ofSame (replicas : db'.replicas = db.replicas) (nodes : db'.nodes = db.nodes) :
    Allotted c now weight nid 0 db db' := by
  refine ⟨0, le_refl _, le_refl _, ?_, ?_, .inl rfl⟩
  · simp [pledged, replicas]
  · simp [nodes]

theorem mono (allotted : Allotted c now weight nid bound db db') (less : bound ≤ bound') :
    Allotted c now weight nid bound' db db' := by
  obtain ⟨extra, nonneg, bounded, rest⟩ := allotted
  exact ⟨extra, nonneg, by omega, rest⟩

theorem trans {db'' : Database} (earlier : Allotted c now weight nid bound db db')
    (later : Allotted c now weight nid bound' db' db'') :
    Allotted c now weight nid (bound + bound') db db'' := by
  obtain ⟨first, nonneg, bounded, added, nodes, admitted⟩ := earlier
  obtain ⟨second, nonneg', bounded', added', nodes', admitted'⟩ := later
  refine ⟨first + second, by omega, by push_cast; omega, by omega, ?_, ?_⟩
  · rw [nodes', nodes, Option.map_map]
    congr 1
    funext node
    simp [NodeRow.adjust, add_assoc]
  · rcases admitted' with rfl | ⟨node', located', alive', room'⟩
    · simpa using admitted
    · rw [nodes] at located'
      obtain ⟨node, located, rfl⟩ := Option.map_eq_some_iff.mp located'
      refine .inr ⟨node, located, alive', ?_⟩
      simp only [NodeRow.adjust] at room'
      omega

theorem reserveOn {cid : Ident} {target : NodeId} {node : NodeRow} {length : Nat}
    (nonneg : ∀ cid, 0 ≤ weight cid) (bounded : weight cid ≤ length)
    (located : db.nodes.get? target = some node) (admits : node.Admits c now length) :
    Allotted c now weight nid (if nid = target then length else 0) db
      (db.reserveOn cid target node.volume length) := by
  have added : (db.reserveOn cid target node.volume length).pledged weight nid ≤
      db.pledged weight nid + if nid = target then weight cid else 0 := by
    rw [reserveOn_eq]
    simp only [pledged]
    rw [Table.sum_upsert]
    have before : 0 ≤ (db.replicas.get? (cid, target)).elim 0 fun row =>
        if target = nid ∧ row.state = .reserved then weight cid else 0 := by
      cases db.replicas.get? (cid, target) with
      | none => exact le_refl _
      | some row =>
          simp only [Option.elim_some]
          split
          · exact nonneg cid
          · exact le_refl _
    by_cases here : nid = target
    · simp only [here, and_true, if_true] at before ⊢
      omega
    · simp only [Ne.symm here, here, false_and, if_false] at before ⊢
      omega
  by_cases here : nid = target
  · subst here
    rw [if_pos rfl] at added ⊢
    refine ⟨length, by omega, le_refl _, by omega, ?_, .inr ⟨node, located, admits.1, ?_⟩⟩
    · rw [reserveOn_eq, Table.get?_modify_self]
    · have room := admits.2
      omega
  · rw [if_neg here] at added ⊢
    refine ⟨0, le_refl _, le_refl _, added, ?_, .inl rfl⟩
    rw [reserveOn_eq, Table.get?_modify_of_ne _ _ here]
    simp

theorem reserveAll (cid : Ident) (length : Nat) (nonneg : ∀ cid, 0 ≤ weight cid)
    (bounded : weight cid ≤ length) (targets : List (NodeId × NodeRow))
    (distinct : (targets.map Prod.fst).Nodup)
    (stored : ∀ target ∈ targets, db.nodes.get? target.1 = some target.2)
    (admitted : ∀ target ∈ targets, target.2.Admits c now length) :
    Allotted c now weight nid (if nid ∈ targets.map Prod.fst then length else 0) db
      (Database.reserveAll cid length targets db) := by
  induction targets generalizing db with
  | nil => exact ofSame rfl rfl
  | cons target rest inductionHypothesis =>
      rcases target with ⟨other, node⟩
      simp only [List.map_cons, List.nodup_cons] at distinct
      have first : Allotted c now weight nid (if nid = other then length else 0) db
          (db.reserveOn cid other node.volume length) :=
        reserveOn nonneg bounded (stored (other, node) (by simp)) (admitted (other, node) (by simp))
      have later := @inductionHypothesis (db.reserveOn cid other node.volume length) distinct.2
        (fun target membership => by
          have different : target.1 ≠ other := by
            rintro rfl
            exact distinct.1 (List.mem_map_of_mem membership)
          rw [reserveOn_eq, Table.get?_modify_of_ne _ _ different]
          exact stored target (by simp [membership]))
        fun target membership => admitted target (by simp [membership])
      refine (first.trans later).mono ?_
      by_cases here : nid = other
      · subst here
        simp [distinct.1]
      · simp only [List.map_cons, List.mem_cons, here, false_or, if_false, Nat.zero_add, le_refl]

theorem initLoop {size : Nat} {upload : Ident} {ident : Nat → Ident}
    (nonneg : ∀ cid, 0 ≤ weight cid) (count : Nat)
    (bounded : ∀ seq < count,
      weight (ident (seq + 2)) ≤ (min c.chunk (size - seq * c.chunk) : Nat))
    (inserted : (List.range count).foldlM (initChunk c now size upload ident) db = .ok db') :
    Allotted c now weight nid (min (count * c.chunk) size) db db' := by
  induction count generalizing db' with
  | zero =>
      simp only [List.range_zero, List.foldlM_nil, pure_eq_ok] at inserted
      subst inserted
      exact (ofSame rfl rfl).mono (Nat.zero_le _)
  | succ count inductionHypothesis =>
      simp only [List.range_succ, List.foldlM_append, List.foldlM_cons, List.foldlM_nil,
        bind_eq_ok, pure_eq_ok] at inserted
      obtain ⟨middle, earlier, _, last, rfl⟩ := inserted
      have before := inductionHypothesis (fun seq inRange => bounded seq (by omega)) earlier
      obtain ⟨opened, targets, opening, selection, _, rfl⟩ := initChunk_ok last
      have opens : Allotted c now weight nid 0 middle opened := ofSame opening.replicas opening.nodes
      refine (before.trans (opens.trans (reserveAll (ident (count + 2))
        (min c.chunk (size - count * c.chunk)) nonneg (bounded count (Nat.lt_succ_self _)) targets
        selection.distinct selection.stored selection.admitted))).mono ?_
      rw [Nat.succ_mul]
      split <;> omega

/-- An upload reserves at most its size on a node. -/
theorem init (consistent : Consistent db) (nonneg : ∀ cid, 0 ≤ weight cid)
    (bounded : ∀ cid, weight cid ≤ db'.lengthOf cid) {owner name : String} {size : Int}
    {ident : Nat → Ident} {reply : Reply}
    (initialized : Database.init c now db owner size name ident = .ok (reply, db')) :
    Allotted c now weight nid size.toNat db db' := by
  obtain ⟨creation, _⟩ := init_creation consistent initialized
  obtain ⟨opened, _, _, _, _, _, _, _, _, nodes, _, replicas, _, _, loop, _⟩ := init_ok initialized
  have opens : Allotted c now weight nid 0 db opened := ofSame replicas nodes
  refine (opens.trans (initLoop nonneg _ (fun seq inRange => ?_) loop)).mono (by omega)
  have sized : db'.lengthOf (ident (seq + 2)) = min c.chunk (size.toNat - seq * c.chunk) :=
    lengthOf_of_stored (creation.created seq inRange).1
  rw [← sized]
  exact bounded (ident (seq + 2))

end Allotted

/-- A request to upload so many bytes is well formed, and as many nodes as it
asks for have room for its first chunk. -/
structure Admissible (c : Config) (now : Time) (db : Database) (owner : String) (size : Int)
    (name : String) : Prop where
  user : (c.users.lookup owner).isSome
  nonempty : 0 < size
  bounded : size ≤ c.chunk * c.maxChunks
  named : 0 < name.length ∧ name.length ≤ 255
  roomy : c.replicas ≤
    (db.nodes.rows.filter fun entry => entry.2.Admits c now (min c.chunk size.toNat)).length

/-- An upload that is accepted is admissible, or empty. -/
theorem Admissible.of_init {owner name : String} {size : Int} {ident : Nat → Ident} {reply : Reply}
    (user : (c.users.lookup owner).isSome)
    (initialized : Database.init c now db owner size name ident = .ok (reply, db')) :
    Admissible c now db owner size name ∨ size = 0 := by
  obtain ⟨opened, nonneg, bounded, named, short, _, _, _, _, nodes, _, _, _, _, loop, _⟩ :=
    init_ok initialized
  rcases nonneg.eq_or_lt with empty | nonempty
  · exact .inr empty.symm
  refine .inl ⟨user, nonempty, bounded, ⟨named, short⟩, ?_⟩
  have counted : 0 < chunkCount size.toNat c.chunk := by
    have positive : 0 < c.chunk := by
      refine Nat.pos_of_ne_zero fun none => ?_
      simp only [none, Nat.cast_zero, zero_mul] at bounded
      omega
    exact Nat.div_pos (by omega) positive
  obtain ⟨count, numbered⟩ := Nat.exists_eq_succ_of_ne_zero counted.ne'
  rw [numbered, List.range_succ_eq_map, List.foldlM_cons, bind_eq_ok] at loop
  obtain ⟨next, created, _⟩ := loop
  obtain ⟨middle, targets, opening, selection, asked, _⟩ := initChunk_ok created
  have same : min c.chunk (size.toNat - 0 * c.chunk) = min c.chunk size.toNat := by simp
  rw [same] at selection
  rw [← asked]
  refine (List.subperm_of_subset (List.Nodup.of_map _ selection.distinct) ?_).length_le
  intro target membership
  have stored := selection.stored target membership
  rw [opening.nodes, nodes] at stored
  exact List.mem_filter.mpr ⟨db.nodes.mem_rows_iff.mpr stored,
    decide_eq_true (selection.admitted target membership)⟩

end Database

/-- The transaction may reserve this many bytes on the node. -/
inductive Demands (σ : State) (nid : NodeId) : Action → Config → Nat → Prop where
  | init (c owner size name ident) (admissible : σ.db.Admissible c σ.now owner size name) :
      Demands σ nid (.request c owner (.init size name) ident) c size.toNat
  | initBy (c e request ident size name) (inits : request.cmd = .init)
      (sized : request.fields.size.bind Value.int? = some size)
      (titled : request.fields.name.bind Value.text? = some name)
      (admissible : σ.db.Admissible c σ.now request.owner size name) :
      Demands σ nid (.requestBy c e request ident) c size.toNat
  | repair (w c job chunk) (claimed : σ.workers w = .claimed job)
      (repairs : job.task.kind = .repair)
      (stored : σ.db.chunks.get? job.task.chunk = some chunk)
      (alone : ∀ other row, σ.db.replicas.get? (job.task.chunk, other) = some row →
        row.state ≠ .reserved)
      (free : ∀ row, σ.db.replicas.get? (job.task.chunk, nid) = some row → row.state = .gone) :
      Demands σ nid (.begin w c) c chunk.length

/-- The reserved bytes of a node grow by a demand only, and within what the
node has reported as free and not yet reserved. -/
def Measured (σ : State) (action : Action) (weight : Ident → Int) (nid : NodeId)
    (db : Database) : Prop :=
  db.pledged weight nid ≤ σ.db.pledged weight nid ∨
    ∃ c bytes node, Demands σ nid action c bytes ∧ σ.db.nodes.get? nid = some node ∧
      node.Alive c σ.now ∧ db.pledged weight nid ≤
        σ.db.pledged weight nid + min (bytes : Int) (node.freeBytes - node.reserved)

namespace Measured

variable {σ σ' : State} {action : Action} {weight : Ident → Int} {nid : NodeId} {db : Database}

theorem release (nonneg : ∀ cid, 0 ≤ weight cid) (releases : σ.db.Releases db) :
    Measured σ action weight nid db :=
  .inl (releases.pledged_le nonneg nid)

theorem demand {c : Config} {bytes : Nat} (demands : Demands σ nid action c bytes)
    (allotted : σ.db.Allotted c σ.now weight nid bytes db) : Measured σ action weight nid db := by
  obtain ⟨extra, _, bounded, added, _, rfl | ⟨node, located, alive, room⟩⟩ := allotted
  · exact .inl (by omega)
  · exact .inr ⟨c, bytes, node, demands, located, alive, by omega⟩

theorem init {c : Config} {owner name : String} {size : Int} {ident : Nat → Ident} {reply : Reply}
    (consistent : Consistent σ.db) (nonneg : ∀ cid, 0 ≤ weight cid)
    (bounded : ∀ cid, weight cid ≤ db.lengthOf cid) (user : (c.users.lookup owner).isSome)
    (initialized : Database.init c σ.now σ.db owner size name ident = .ok (reply, db))
    (demands : σ.db.Admissible c σ.now owner size name → Demands σ nid action c size.toNat) :
    Measured σ action weight nid db := by
  have allotted : Database.Allotted c σ.now weight nid size.toNat σ.db db :=
    .init consistent nonneg bounded initialized
  rcases Database.Admissible.of_init user initialized with admissible | rfl
  · exact .demand (demands admissible) allotted
  · obtain ⟨extra, _, none, added, _⟩ := allotted
    simp only [Int.toNat_zero, Nat.cast_zero] at none
    exact .inl (by omega)

theorem keyed {c : Config} {e : StrictEngine} {request : Internal} {ident : Nat → Ident}
    {focus : Focus} (move : KeyMove e c σ.now σ.db ident request focus db)
    (consistent : Consistent σ.db) (nonneg : ∀ cid, 0 ≤ weight cid)
    (bounded : ∀ cid, weight cid ≤ db.lengthOf cid) :
    Measured σ (.requestBy c e request ident) weight nid db := by
  cases move with
  | same => exact .release nonneg (.refl _)
  | command command reply focus db' dispatched focuses steps drawn other creates =>
      cases command with
      | init size name =>
          obtain ⟨inits, rfl, rfl⟩ := creates size name rfl
          simp only [Database.dispatch, bind_eq_ok] at dispatched
          obtain ⟨_, user, initialized⟩ := dispatched
          refine .init consistent nonneg bounded (require_eq_ok.mp user) initialized
            fun admissible => ?_
          have sized : ∃ size, request.fields.size.bind Value.int? = some size := by
            refine Option.ne_none_iff_exists'.mp fun none => ?_
            have positive := admissible.nonempty
            simp [none] at positive
          have titled : ∃ name, request.fields.name.bind Value.text? = some name := by
            refine Option.ne_none_iff_exists'.mp fun none => ?_
            have positive := admissible.named.1
            simp [none] at positive
          obtain ⟨size, sized⟩ := sized
          obtain ⟨name, titled⟩ := titled
          rw [sized, titled] at admissible
          rw [sized]
          exact .initBy c e request ident size name inits sized titled admissible
      | _ => exact .release nonneg (.dispatch dispatched (by simp))
  | prepare => exact .release nonneg (.ofReplicas rfl)
  | retire sel upload row deletes selects stored =>
      exact .release nonneg (.retire stored _)
  | report sel oid object cid nid =>
      exact .release nonneg ((Database.Releases.report cid nid).trans (.ofReplicas rfl))

theorem repairBegin (nonneg : ∀ cid, 0 ≤ weight cid) (bounded : ∀ cid, weight cid ≤ db.lengthOf cid)
    {w : Nat} {c : Config} {job : Job} {result : Option Repair}
    (claimed : σ.workers w = .claimed job) (repairs : job.task.kind = .repair)
    (begun : σ.db.repairBegin c σ.now job = .ok (result, db)) :
    Measured σ (.begin w c) weight nid db := by
  obtain ⟨chunk, _, _, _, stored, _, _, _, outcome⟩ := Database.repairBegin_ok begun
  rcases outcome with ⟨_, _, rfl⟩ | ⟨_, _, target, _, targeted, _, _⟩
  · exact .release nonneg (.ofReplicas rfl)
  · rcases targeted.choice with ⟨_, _, _, rfl⟩ | ⟨alone, free, node, located, admits, rfl⟩
    · exact .release nonneg (.refl _)
    · have sized := Database.lengthOf_of_stored stored
      have allotted : Database.Allotted c σ.now weight nid _ _ _ :=
        Database.Allotted.reserveOn nonneg (sized ▸ bounded job.task.chunk) located admits
      by_cases here : nid = target
      · subst here
        exact .demand (.repair w c job chunk claimed repairs stored alone free)
          (allotted.mono (by simp))
      · obtain ⟨extra, nonneg, bounded, added, _⟩ := allotted
        rw [if_neg here] at bounded
        exact .inl (by omega)

theorem worker {w : Nat} {before worker : Worker}
    (move : WorkerMove σ w action before worker db) (here : σ.workers w = before)
    (nonneg : ∀ cid, 0 ≤ weight cid) (bounded : ∀ cid, weight cid ≤ db.lengthOf cid) :
    Measured σ action weight nid db := by
  cases move with
  | deleteBegin c job deletion db deletes begun => exact .release nonneg (.deleteBegin begun)
  | deleteCommit c job deletion db committed => exact .release nonneg (.deleteCommit committed)
  | repairBegin c job repair db repairs begun => exact .repairBegin nonneg bounded here repairs begun
  | repairExit c job db repairs begun => exact .repairBegin nonneg bounded here repairs begun
  | repairCommit c job repair db committed => exact .release nonneg (.repairCommit committed)
  | _ => exact .release nonneg (.ofReplicas rfl)

theorem maintenance {before maintenance : Maintenance}
    (move : MaintenanceMove σ action before maintenance db) (consistent : Consistent σ.db)
    (nonneg : ∀ cid, 0 ≤ weight cid) : Measured σ action weight nid db := by
  cases move with
  | maintain c => exact .release nonneg (.maintain consistent)
  | review c view cid ids last more views => exact .release nonneg (.reviewFile view cid)
  | reverify view check valid left views db judged => exact .release nonneg (.reverify judged)
  | _ => exact .release nonneg (.refl _)

theorem step (reached : Reachable metadata σ) (stepped : metadata.step σ action = some σ')
    (nonneg : ∀ cid, 0 ≤ weight cid) (bounded : ∀ cid, weight cid ≤ σ'.db.lengthOf cid) :
    Measured σ action weight nid σ'.db := by
  have consistent := (reachable_invariant reached).consistent
  cases happens stepped with
  | tick | beat | refuse | reject | dropBeat => exact .release nonneg (.refl _)
  | request c owner command ident fresh =>
      show Measured σ _ weight nid (σ.outcome _)
      replace bounded : ∀ cid, weight cid ≤
          (σ.outcome (σ.db.dispatch c σ.now ident owner command)).lengthOf cid := bounded
      cases dispatched : σ.db.dispatch c σ.now ident owner command with
      | error failure => exact .release nonneg (.refl _)
      | ok result =>
          rw [dispatched] at bounded
          cases command with
          | init size name =>
              simp only [Database.dispatch, bind_eq_ok] at dispatched
              obtain ⟨_, user, initialized⟩ := dispatched
              exact .init consistent nonneg bounded (require_eq_ok.mp user) initialized
                fun admissible => .init c owner size name ident admissible
          | _ => exact .release nonneg (.dispatch dispatched (by simp))
  | requestBy c e request ident fresh =>
      show Measured σ _ weight nid (σ.outcome _)
      replace bounded : ∀ cid, weight cid ≤
          (σ.outcome (σ.db.dispatchBy e.toEngine c σ.now ident request)).lengthOf cid := bounded
      cases dispatched : σ.db.dispatchBy e.toEngine c σ.now ident request with
      | error failure => exact .release nonneg (.refl _)
      | ok result =>
          rw [dispatched] at bounded
          obtain ⟨focus, move⟩ := KeyMove.of_dispatchBy consistent dispatched
          exact .keyed move consistent nonneg bounded
  | register i c beat db present registered => exact .release nonneg (.register registered)
  | confirm _ i op db move =>
      cases move with
      | commit c op bytes db present finished committed =>
          exact .release nonneg (.confirmCommit committed)
      | _ => exact .release nonneg (.refl _)
  | worker _ w worker db move => exact .worker move rfl nonneg bounded
  | maintenance _ maintenance db move => exact .maintenance move consistent nonneg

end Measured

end FileServer.Metadata
