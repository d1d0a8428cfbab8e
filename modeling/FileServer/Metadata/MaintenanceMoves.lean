import FileServer.Metadata.Helpers

/-!
# Heartbeats and reconciliation as moves

A heartbeat is one move of the node table with the rows of its node; a verdict
of `reconcile` is at most two moves of one row.
-/

namespace FileServer.Metadata

open FileServer.Relational FileServer.Transition

/-- What `reconcile` knows of a chunk it checks. -/
def Check.Known (db : Database) (check : Check) : Prop :=
  ∃ chunk, db.chunks.get? check.chunk = some chunk ∧ chunk.length = check.length

theorem Check.Known.grown {db db' : Database} {drawn : List Ident} {check : Check}
    (known : check.Known db) (grown : Grown drawn db db') : check.Known db' := by
  obtain ⟨chunk, stored, sized⟩ := known
  obtain ⟨chunk', stored', kept, _⟩ := grown.chunks _ chunk stored
  exact ⟨chunk', stored', kept.length.trans sized⟩

namespace Database

variable {db db' : Database} {c : Config} {now : Time} {focus : Focus} {drawn : List Ident}

def registered (beat : Beat) (old : Option NodeRow) : NodeRow where
  address := beat.address
  inst := beat.inst
  volume := beat.volume
  heartbeat := beat.time
  capacity := beat.capacity
  freeBytes := beat.free
  reserved := old.elim 0 NodeRow.reserved
  usedBytes := old.elim 0 NodeRow.usedBytes
  state := .healthy

/-- The replica row a heartbeat of a changed node leaves. -/
def remounted (volume : Ident) (row : ReplicaRow) : ReplicaRow :=
  if row.state = .valid ∨ row.state = .bad then { row with state := .unverified }
  else if row.state = .reserved then { row with volume }
  else row

theorem remounted_charged (volume : Ident) (row : ReplicaRow) :
    (remounted volume row).charged = row.charged := by
  unfold remounted
  split
  · rfl
  · split <;> rfl

/-- The heartbeat shows another process or another volume. -/
def Remounts (db : Database) (beat : Beat) : Prop :=
  ∃ old ∈ db.nodes.get? beat.node, old.inst ≠ beat.inst ∨ old.volume ≠ beat.volume

instance (db : Database) (beat : Beat) : Decidable (db.Remounts beat) :=
  match stored : db.nodes.get? beat.node with
  | none => isFalse (by simp [Remounts, stored])
  | some old =>
      decidable_of_iff (old.inst ≠ beat.inst ∨ old.volume ≠ beat.volume) (by simp [Remounts, stored])

/-- The effect of a heartbeat that was accepted. -/
structure Registration (c : Config) (db db' : Database) (beat : Beat) : Prop where
  fresh : ∀ old, db.nodes.get? beat.node = some old → old.inst ≠ beat.inst →
    (beat.node, beat.inst) ∉ db.instances ∧ (c.dead : Int) ≤ beat.time - old.heartbeat
  nodes : ∀ nid, db'.nodes.get? nid =
    if nid = beat.node then some (registered beat (db.nodes.get? beat.node)) else db.nodes.get? nid
  instances : ∀ entry, entry ∈ db'.instances ↔ entry ∈ db.instances ∨
    ∃ old, db.nodes.get? beat.node = some old ∧ old.inst ≠ beat.inst ∧
      entry = (beat.node, old.inst)
  replicas : db'.replicas = db.replicas.mapRows fun key row =>
    if db.Remounts beat ∧ key.2 = beat.node then remounted beat.volume row else row
  objects : db'.objects = db.objects
  uploads : db'.uploads = db.uploads
  chunks : db'.chunks = db.chunks
  tasks : db'.tasks = db.tasks

theorem register_ok {beat : Beat} (accepted : db.register c beat = .ok db') :
    Registration c db db' beat := by
  simp only [register, bind_eq_ok, require_eq_ok, pure_eq_ok] at accepted
  obtain ⟨_, unused, _, dead, rfl⟩ := accepted
  refine ⟨fun old stored changed => ⟨unused old stored changed, dead old stored changed⟩, ?_, ?_,
    ?_, rfl, rfl, rfl, rfl⟩
  · intro nid
    simp only [Table.get?_upsert]
    by_cases same : nid = beat.node
    · rw [if_pos same, if_pos same]
      cases db.nodes.get? beat.node <;> rfl
    · rw [if_neg same, if_neg same]
  · intro entry
    cases stored : db.nodes.get? beat.node with
    | none => simp
    | some old =>
        by_cases changed : old.inst = beat.inst
        · simp [changed]
        · simp [changed, or_comm]
  · have kept : db.replicas.mapRows (fun _ row => row) = db.replicas := by
      simp [Table.mapRows]
    cases stored : db.nodes.get? beat.node with
    | none => simp [Remounts, stored, kept]
    | some old =>
        by_cases changed : old.inst ≠ beat.inst ∨ old.volume ≠ beat.volume
        · simp only [Remounts, stored, Option.mem_def, Option.some.injEq, exists_eq_left', changed,
            true_and, decide_true, if_true]
          rfl
        · simp only [Remounts, stored, Option.mem_def, Option.some.injEq, exists_eq_left', changed,
            false_and, decide_false, if_false, kept]
          rfl

namespace Registration

variable {beat : Beat} (registration : Registration c db db' beat)
include registration

theorem get?_replicas (cid : Ident) (nid : NodeId) :
    db'.replicas.get? (cid, nid) = (db.replicas.get? (cid, nid)).map fun row =>
      if db.Remounts beat ∧ nid = beat.node then remounted beat.volume row else row := by
  rw [registration.replicas, Table.get?_mapRows]

theorem stored : db'.nodes.get? beat.node = some (registered beat (db.nodes.get? beat.node)) := by
  rw [registration.nodes, if_pos rfl]

theorem rows (cid : Ident) (nid : NodeId) :
    RowMove (.register beat.node) db db' cid nid (db.replicas.get? (cid, nid))
      (db'.replicas.get? (cid, nid)) := by
  rw [registration.get?_replicas]
  cases db.replicas.get? (cid, nid) with
  | none => exact .keep none
  | some row =>
      rw [Option.map_some]
      by_cases here : db.Remounts beat ∧ nid = beat.node
      · rw [if_pos here, remounted]
        by_cases read : row.state = .valid ∨ row.state = .bad
        · rw [if_pos read]
          exact .unverify row (here.2 ▸ rfl) read
        · rw [if_neg read]
          by_cases reserved : row.state = .reserved
          · rw [if_pos reserved]
            exact .remount row beat.volume (here.2 ▸ rfl) reserved ⟨_, here.2 ▸ registration.stored, rfl⟩
          · rw [if_neg reserved]
            exact .keep _
      · rw [if_neg here]
        exact .keep _

theorem mounted (consistent : Consistent db) {cid : Ident} {row : ReplicaRow}
    (present : db'.replicas.get? (cid, beat.node) = some row)
    (live : row.state = .reserved ∨ row.state = .valid) : row.volume = beat.volume := by
  rw [registration.get?_replicas] at present
  obtain ⟨old, before, rfl⟩ := Option.map_eq_some_iff.mp present
  by_cases changed : db.Remounts beat
  · simp only [changed, and_self, if_true, remounted] at live ⊢
    split at live
    · simp at live
    next unread =>
      simp only [unread, if_false]
      split at live
      · next reserved => simp [reserved]
      · next unreserved =>
          rcases live with reserved | valid
          · exact absurd reserved unreserved
          · exact absurd (.inl valid) unread
  · simp only [changed, false_and, if_false] at live ⊢
    obtain ⟨node, located⟩ := consistent.replicaNode _ _ old before
    rw [consistent.mounted _ _ old node before located live]
    by_contra different
    exact changed ⟨node, located, .inr different⟩

theorem balance (consistent : Consistent db) (accounted : db.Accounted) : db'.Accounted := by
  have charged := chargedBytes_mapRows registration.replicas
    (by intro key row; split <;> simp [remounted_charged]) registration.chunks
  intro nid node located
  rw [charged, charged]
  rw [registration.nodes] at located
  by_cases same : nid = beat.node
  · subst nid
    rw [if_pos rfl, Option.some.injEq] at located
    subst node
    cases before : db.nodes.get? beat.node with
    | some old => exact accounted beat.node old before
    | none =>
        have empty : ∀ kind, db.chargedBytes kind beat.node = 0 := by
          intro kind
          refine db.replicas.sum_eq_zero fun key row stored => if_neg ?_
          rintro ⟨same, _⟩
          obtain ⟨node, present⟩ := consistent.replicaNode key.1 key.2 row stored
          rw [same, before] at present
          cases present
        simp [registered, empty]
  · rw [if_neg same] at located
    exact accounted nid node located

theorem moves (consistent : Consistent db) : Moves (.register beat.node) drawn db db' where
  rows := registration.rows
  tasks := Moves.tasks_keep registration.tasks
  life := .same registration.objects registration.uploads registration.chunks
  nodes := by
    refine .register beat.node _ rfl registration.stored ?_ ?_ ?_ ?_ ?_ ?_ ?_
    · exact fun other different => by rw [registration.nodes, if_neg different]
    · exact fun old before changed => (registration.fresh old before changed).1
    · exact fun entry membership => (registration.instances entry).mpr (.inl membership)
    · exact fun old before changed =>
        (registration.instances _).mpr (.inr ⟨old, before, changed, rfl⟩)
    · exact fun entry membership => (registration.instances entry).mp membership
    · exact fun cid row present live => registration.mounted consistent present live
    · intro cid other different
      rw [registration.get?_replicas]
      simp [different]
  balance := registration.balance consistent
  budget := by
    intro nid old new before after
    rw [registration.nodes] at after
    left
    by_cases same : nid = beat.node
    · subst nid
      rw [if_pos rfl, Option.some.injEq] at after
      simp [← after, registered, before]
    · rw [if_neg same, before, Option.some.injEq] at after
      rw [after]
  newlyDeleted := by
    intro cid deleted before
    rw [phase_congr registration.objects registration.uploads (by rw [registration.chunks])] at deleted
    exact absurd deleted before

end Registration

theorem refreshHealth_moves : Moves focus drawn db (db.refreshHealth c now) := by
  refine Moves.ofLocal ⟨rfl, rfl, rfl, rfl⟩ ⟨?_, ?_⟩ (Moves.rows_keep rfl) (Moves.tasks_keep rfl) ?_
  · intro nid
    simp only [refreshHealth, Table.get?_mapRows]
    cases db.nodes.get? nid with
    | none => exact .none
    | some node => exact .some ⟨rfl, rfl, rfl, rfl⟩
  · intro nid old new before after
    simp only [refreshHealth, Table.get?_mapRows, before, Option.map_some,
      Option.some.injEq] at after
    exact .inl (by simp [← after])
  · intro accounted nid node located
    simp only [refreshHealth, Table.get?_mapRows, Option.map_eq_some_iff] at located
    obtain ⟨old, before, rfl⟩ := located
    exact accounted nid old before

theorem reverify_ok {view : NodeView} {check : Check} {valid : Bool}
    (judged : db.reverify view check valid = .ok db') :
    ∃ replica node, db.replicas.get? (check.chunk, view.node) = some replica ∧
      db.nodes.get? view.node = some node ∧
      ((node.volume = view.volume ∧ node.inst = view.inst ∧
        ∃ marked, marked = db.modifyReplica check.chunk view.node (fun row =>
            if row.state = .unverified then
              { row with state := if valid then .valid else .bad, volume := view.volume }
            else row) ∧
          db' = if valid = false ∧ replica.volume ≠ view.volume then
            marked.uncharge check.chunk view.node check.length else marked) ∨
        (¬(node.volume = view.volume ∧ node.inst = view.inst) ∧ db' = db)) := by
  simp only [reverify, bind_eq_ok, found_eq_ok] at judged
  obtain ⟨replica, stored, node, located, judged⟩ := judged
  refine ⟨replica, node, stored, located, ?_⟩
  split at judged
  · next same =>
      rw [pure_eq_ok] at judged
      exact .inl ⟨same.1, same.2, _, rfl, judged.symm⟩
  · next changed =>
      rw [pure_eq_ok] at judged
      exact .inr ⟨changed, judged.symm⟩

theorem reverify_steps (consistent : Consistent db) {view : NodeView} {check : Check}
    {valid : Bool} (known : check.Known db) (judged : db.reverify view check valid = .ok db') :
    Steps (.verdict check.chunk view.node valid) drawn db db' := by
  obtain ⟨replica, node, stored, located, outcome⟩ := reverify_ok judged
  rcases outcome with ⟨volume, inst, marked, rfl, rfl⟩ | ⟨_, rfl⟩
  · obtain ⟨chunk, present, sized⟩ := known
    have verdict : Moves (.verdict check.chunk view.node valid) drawn db (db.modifyReplica check.chunk view.node fun row =>
        if row.state = .unverified then
          { row with state := if valid then .valid else .bad, volume := view.volume }
        else row) := by
      refine Moves.ofMark _ (fun row => by split <;> rfl) fun row before => ?_
      by_cases unverified : row.state = .unverified
      · rw [if_pos unverified]
        refine .verdict row view.volume _ row.charged valid rfl unverified ?_ ⟨node, located, volume⟩
        cases valid
        · exact .inr ⟨rfl, .inl rfl⟩
        · exact .inl ⟨rfl, rfl, rfl⟩
      · rw [if_neg unverified]
        exact .keep _
    split
    · next replaced =>
        refine (Relation.ReflTransGen.single verdict).tail
          (Moves.uncharge ((lengthOf_of_stored present).trans sized) ?_)
        intro row after reserved
        simp only [modifyReplica, Table.get?_modify_self, stored, Option.map_some,
          Option.some.injEq] at after
        split at after
        · rw [← after] at reserved
          simp [replaced.1] at reserved
        · rw [← after] at reserved
          refine absurd ?_ replaced.2
          rw [← volume]
          exact consistent.mounted _ _ replica node stored located (.inl reserved)
    · exact .single verdict
  · exact .refl

theorem reviewFile_steps {view : NodeView} {cid : Ident} :
    Steps (.review cid) drawn db (db.reviewFile c now view cid) := by
  unfold reviewFile
  have cleanup : Moves (.review cid) drawn db
      (db.enqueue now .delete cid (some view.node) (c.authTtl + 30)) :=
    Moves.enqueue (.inr rfl) (by simp)
  cases db.chunkObject cid with
  | none => exact .single cleanup
  | some known =>
      simp only
      split
      · exact .single cleanup
      · split
        · exact .refl
        · split
          · exact .single cleanup
          · exact .refl

end Database

end FileServer.Metadata
