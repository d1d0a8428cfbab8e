import FileServer.Metadata.Lifecycle

/-!
# The invariant of the tables

Every transaction is a sequence of moves, so it is enough that one move
preserves the invariant.  Each field of `Consistent` is preserved for a reason
of its own and has a lemma of its own.
-/

namespace FileServer.Metadata

open FileServer.Relational

/-- The invariant of the tables between two transactions. -/
structure Consistent (db : Database) : Prop where
  linked : Linked db
  shaped : Shaped db
  accounted : db.Accounted
  replicaChunk : ∀ cid nid row, db.replicas.get? (cid, nid) = some row →
    ∃ chunk, db.chunks.get? cid = some chunk
  replicaNode : ∀ cid nid row, db.replicas.get? (cid, nid) = some row →
    ∃ node, db.nodes.get? nid = some node
  retired : ∀ nid node, db.nodes.get? nid = some node → (nid, node.inst) ∉ db.instances
  registered : ∀ nid inst, (nid, inst) ∈ db.instances → ∃ node, db.nodes.get? nid = some node
  mounted : ∀ cid nid row node, db.replicas.get? (cid, nid) = some row →
    db.nodes.get? nid = some node → row.state = .reserved ∨ row.state = .valid →
    row.volume = node.volume
  goneUncharged : ∀ cid nid row, db.replicas.get? (cid, nid) = some row →
    row.state = .gone → row.charged = .none
  chargedReserved : ∀ cid nid row, db.replicas.get? (cid, nid) = some row →
    row.charged = .reserved → row.state = .reserved
  stagingReserved : ∀ cid nid row, db.replicas.get? (cid, nid) = some row →
    db.phase cid = some .staging → row.state = .reserved → row.charged = .reserved
  replicated : ∀ cid chunk upload object, db.chunks.get? cid = some chunk →
    db.uploads.get? chunk.upload = some upload → db.objects.get? upload.object = some object →
    object.state = .staging → (db.replicasOf cid).length = object.replicas
  single : ∀ cid first second row row', db.phase cid = some .published →
    db.replicas.get? (cid, first) = some row → db.replicas.get? (cid, second) = some row' →
    row.state = .reserved → row'.state = .reserved → first = second
  ended : ∀ cid nid row, db.phase cid = some .deleted →
    db.replicas.get? (cid, nid) = some row → row.Ended
  confirmed : ∀ cid chunk, db.chunks.get? cid = some chunk → db.phase cid = some .published →
    chunk.state = .confirmed
  unassigned : ∀ key task, db.tasks.get? key = some task → key.kind = .repair → key.node = none
  cleaned : ∀ cid nid row, db.replicas.get? (cid, nid) = some row → row.state = .deleting →
    db.Outstanding ⟨.delete, cid, some nid⟩

theorem Consistent.empty : Consistent .empty where
  linked := by constructor <;> simp [Database.empty]
  shaped := by constructor <;> simp [Database.empty]
  accounted := by simp [Database.Accounted, Database.empty]
  replicaChunk := by simp [Database.empty]
  replicaNode := by simp [Database.empty]
  retired := by simp [Database.empty]
  registered := by simp [Database.empty]
  mounted := by simp [Database.empty]
  goneUncharged := by simp [Database.empty]
  chargedReserved := by simp [Database.empty]
  stagingReserved := by simp [Database.empty]
  replicated := by simp [Database.empty]
  single := by simp [Database.empty]
  ended := by simp [Database.empty]
  confirmed := by simp [Database.empty]
  unassigned := by simp [Database.empty]
  cleaned := by simp [Database.empty]

namespace Database

theorem replicasOf_length_congr {db db' : Database} {cid : Ident}
    (same : ∀ nid, db'.replicas.get? (cid, nid) = none ↔ db.replicas.get? (cid, nid) = none) :
    (db'.replicasOf cid).length = (db.replicasOf cid).length := by
  have keys : ((db'.replicasOf cid).map Prod.fst).Perm ((db.replicasOf cid).map Prod.fst) := by
    rw [List.perm_ext_iff_of_nodup (db'.replicasOf_nodup cid) (db.replicasOf_nodup cid)]
    intro nid
    have known : ∀ db : Database, nid ∈ (db.replicasOf cid).map Prod.fst ↔
        db.replicas.get? (cid, nid) ≠ none := by
      intro db
      simp only [List.mem_map, Prod.exists, mem_replicasOf, exists_and_right, exists_eq_right,
        Option.ne_none_iff_exists']
    rw [known, known, not_iff_not, same]
  simpa using keys.length_eq

end Database

theorem Consistent.allValid {db : Database} (consistent : Consistent db) {cid : Ident}
    {chunk : ChunkRow} {upload : UploadRow} {object : ObjectRow}
    (stored : db.chunks.get? cid = some chunk)
    (owned : db.uploads.get? chunk.upload = some upload)
    (located : db.objects.get? upload.object = some object) (staging : object.state = .staging)
    (ready : object.replicas ≤
      ((db.replicasOf cid).filter fun entry => entry.2.state = .valid).length)
    {nid : NodeId} {row : ReplicaRow} (replica : db.replicas.get? (cid, nid) = some row) :
    row.state ≠ .reserved := by
  rw [← consistent.replicated cid chunk upload object stored owned located staging] at ready
  have all := List.length_filter_eq_length_iff.mp
    (le_antisymm (List.length_filter_le _ _) ready) (nid, row) (db.mem_replicasOf.mpr replica)
  simp only [decide_eq_true_eq] at all
  simp [all]

section Moves

variable {focus : Focus} {drawn : List Ident} {db db' : Database}

theorem NodesMove.persists (nodes : NodesMove focus db db') {nid : NodeId} {node : NodeRow}
    (stored : db.nodes.get? nid = some node) : ∃ node', db'.nodes.get? nid = some node' := by
  cases nodes with
  | same nodes instances =>
      have related := nodes nid
      rw [stored] at related
      cases after : db'.nodes.get? nid with
      | none => simp [after] at related
      | some node' => exact ⟨node', rfl⟩
  | register other registered owner located others =>
      by_cases same : nid = other
      · exact ⟨registered, same ▸ located⟩
      · exact ⟨node, by rw [others nid same, stored]⟩

theorem Moves.rowOrigin (moves : Moves focus drawn db db') {cid : Ident} {nid : NodeId}
    {row : ReplicaRow} (stored : db'.replicas.get? (cid, nid) = some row) :
    RowMove focus db db' cid nid (db.replicas.get? (cid, nid)) (some row) :=
  stored ▸ moves.rows cid nid

theorem RowMove.persists {cid : Ident} {nid : NodeId} {old new : Option ReplicaRow}
    (move : RowMove focus db db' cid nid old new) (present : old ≠ none) : new ≠ none := by
  cases move <;> simp_all

theorem RowMove.fresh {cid : Ident} {nid : NodeId} {row : ReplicaRow}
    (move : RowMove focus db db' cid nid none (some row)) :
    db'.phase cid = some .published ∨
      (db'.phase cid = some .staging ∧ db.phase cid = none) := by
  cases move with
  | reserve old volume free mounted alone phases => exact phases

theorem PhaseMove.deleted {cid : Ident} (move : PhaseMove focus db db' cid)
    (before : db.phase cid = some .deleted) : db'.phase cid = some .deleted := by
  cases move with
  | keep same => rw [same, before]
  | publish _ staging => simp [before] at staging
  | delete present after => exact after
  | create absent => simp [before] at absent

theorem PhaseMove.staging {cid : Ident} (move : PhaseMove focus db db' cid)
    (after : db'.phase cid = some .staging) :
    db.phase cid = some .staging ∨ db.phase cid = none := by
  cases move with
  | keep same => exact .inl (same ▸ after)
  | publish _ before published => simp [after] at published
  | delete present deleted => simp [after] at deleted
  | create absent => exact .inr absent

namespace Moves

variable (moves : Moves focus drawn db db') (consistent : Consistent db)
include moves consistent

theorem replicaChunk {cid : Ident} {nid : NodeId} {row : ReplicaRow}
    (stored : db'.replicas.get? (cid, nid) = some row) :
    ∃ chunk, db'.chunks.get? cid = some chunk := by
  cases before : db.replicas.get? (cid, nid) with
  | none =>
      have move := moves.rowOrigin stored
      rw [before] at move
      have known : ∃ state, db'.phase cid = some state :=
        move.fresh.elim (fun known => ⟨_, known⟩) fun known => ⟨_, known.1⟩
      obtain ⟨state, known⟩ := known
      obtain ⟨chunk, _, _, located, _⟩ := Database.phase_eq_some.mp known
      exact ⟨chunk, located⟩
  | some old =>
      obtain ⟨chunk, located⟩ := consistent.replicaChunk cid nid old before
      obtain ⟨chunk', after, _⟩ := moves.life.chunks located
      exact ⟨chunk', after⟩

theorem replicaNode {cid : Ident} {nid : NodeId} {row : ReplicaRow}
    (stored : db'.replicas.get? (cid, nid) = some row) :
    ∃ node, db'.nodes.get? nid = some node := by
  cases before : db.replicas.get? (cid, nid) with
  | none =>
      have move := moves.rowOrigin stored
      rw [before] at move
      cases move with
      | reserve old volume free mounted =>
          obtain ⟨node, located, _⟩ := mounted
          exact ⟨node, located⟩
  | some old =>
      obtain ⟨node, located⟩ := consistent.replicaNode cid nid old before
      exact moves.nodes.persists located

theorem registered {nid : NodeId} {inst : Ident} (membership : (nid, inst) ∈ db'.instances) :
    ∃ node, db'.nodes.get? nid = some node := by
  have known : ∃ node, db.nodes.get? nid = some node := by
    cases moves.nodes with
    | same nodes instances => exact consistent.registered nid inst (instances ▸ membership)
    | register other node owner located others fresh kept retired only =>
        rcases only _ membership with earlier | ⟨old, before, _, entry⟩
        · exact consistent.registered nid inst earlier
        · cases entry
          exact ⟨old, before⟩
  obtain ⟨node, before⟩ := known
  exact moves.nodes.persists before

theorem retired {nid : NodeId} {node : NodeRow} (stored : db'.nodes.get? nid = some node) :
    (nid, node.inst) ∉ db'.instances := by
  cases moves.nodes with
  | same nodes instances =>
      have related := nodes nid
      rw [stored] at related
      cases before : db.nodes.get? nid with
      | none => simp [before] at related
      | some old =>
          rw [before, Option.rel_some_some] at related
          rw [instances, related.inst]
          exact consistent.retired nid old before
  | register other registered owner located others fresh kept retired only =>
      intro membership
      rcases only _ membership with earlier | ⟨old, before, changed, entry⟩
      · obtain ⟨old, before⟩ := consistent.registered nid _ earlier
        by_cases same : nid = other
        · subst other
          rw [stored, Option.some.injEq] at located
          subst registered
          by_cases changed : old.inst = node.inst
          · exact consistent.retired nid old before (changed ▸ earlier)
          · exact fresh old before changed earlier
        · exact consistent.retired nid node (others nid same ▸ stored) earlier
      · obtain ⟨rfl, sameInst⟩ := Prod.mk.inj entry
        rw [stored, Option.some.injEq] at located
        subst registered
        exact changed sameInst.symm

theorem mounted {cid : Ident} {nid : NodeId} {row : ReplicaRow} {node : NodeRow}
    (stored : db'.replicas.get? (cid, nid) = some row) (located : db'.nodes.get? nid = some node)
    (live : row.state = .reserved ∨ row.state = .valid) : row.volume = node.volume := by
  have here : ∀ volume, (∃ node, db'.nodes.get? nid = some node ∧ node.volume = volume) →
      volume = node.volume := by
    rintro _ ⟨other, found, rfl⟩
    rw [located, Option.some.injEq] at found
    rw [found]
  have kept : ∀ old, db.replicas.get? (cid, nid) = some old →
      old.state = .reserved ∨ old.state = .valid → row.volume = old.volume →
      row.volume = node.volume := by
    intro old before oldLive sameVolume
    cases moves.nodes with
    | same nodes instances =>
        have related := nodes nid
        rw [located] at related
        obtain ⟨oldNode, found⟩ := consistent.replicaNode cid nid old before
        rw [found, Option.rel_some_some] at related
        rw [sameVolume, related.volume]
        exact consistent.mounted cid nid old oldNode before found oldLive
    | register other registered owner found others fresh kept retired only mounted elsewhere =>
        by_cases same : nid = other
        · subst other
          rw [located, Option.some.injEq] at found
          exact found ▸ mounted cid row stored live
        · exact consistent.mounted cid nid row node (elsewhere cid nid same ▸ stored)
            (others nid same ▸ located) live
  have move := moves.rowOrigin stored
  generalize before : db.replicas.get? (cid, nid) = old at move
  cases move with
  | keep => exact kept row before live rfl
  | reserve _ volume free mounted => exact here volume mounted
  | settle old owner reserved charged => exact kept old before (.inl reserved) rfl
  | mark old valid => simp at live
  | unverify old owner read => simp at live
  | remount old volume owner reserved mounted => exact here volume mounted
  | verdict old volume state charged valid owner unverified judged mounted => exact here volume mounted
  | refund old settled => exact kept old before live rfl
  | retire old deleted cleanup => by_cases gone : old.state = .gone <;> simp [gone] at live
  | delete old unprotected cleanup => simp at live
  | vanish old deleting => simp at live
  | discard old owner reserved => simp at live

theorem goneUncharged {cid : Ident} {nid : NodeId} {row : ReplicaRow}
    (stored : db'.replicas.get? (cid, nid) = some row) (gone : row.state = .gone) :
    row.charged = .none := by
  have move := moves.rowOrigin stored
  generalize before : db.replicas.get? (cid, nid) = old at move
  cases move with
  | keep => exact consistent.goneUncharged cid nid row before gone
  | reserve | settle | mark | unverify | delete => simp at gone
  | remount old volume owner reserved => simp [reserved] at gone
  | verdict old volume state charged valid owner unverified judged =>
      rcases judged with ⟨_, rfl, _⟩ | ⟨rfl, _⟩ <;> simp at gone
  | refund | vanish | discard => rfl
  | retire old deleted cleanup =>
      by_cases oldGone : old.state = .gone
      · simp [consistent.goneUncharged cid nid old before oldGone]
      · simp [oldGone] at gone

theorem chargedReserved {cid : Ident} {nid : NodeId} {row : ReplicaRow}
    (stored : db'.replicas.get? (cid, nid) = some row) (charged : row.charged = .reserved) :
    row.state = .reserved := by
  have move := moves.rowOrigin stored
  generalize before : db.replicas.get? (cid, nid) = old at move
  have earlier : ∀ row, old = some row → row.charged = .reserved → row.state = .reserved :=
    fun row known => consistent.chargedReserved cid nid row (before.trans known)
  cases move with
  | keep => exact earlier row rfl charged
  | reserve => rfl
  | settle | refund | vanish | discard => simp at charged
  | mark old valid => simp [earlier old rfl charged] at valid
  | unverify old owner read => simp [earlier old rfl charged] at read
  | remount old volume owner reserved => exact reserved
  | verdict old volume state kind valid owner unverified judged =>
      have kept : kind = old.charged := by
        rcases judged with ⟨_, _, same⟩ | ⟨_, same | cleared⟩
        · exact same
        · exact same
        · simp [cleared] at charged
      simp [earlier old rfl (kept ▸ charged)] at unverified
  | retire old deleted cleanup => by_cases reserved : old.charged = .reserved <;> simp [reserved] at charged
  | delete old unprotected cleanup =>
      exact absurd (.inr (.inl (earlier old rfl charged))) unprotected

theorem stagingReserved {cid : Ident} {nid : NodeId} {row : ReplicaRow}
    (stored : db'.replicas.get? (cid, nid) = some row) (staging : db'.phase cid = some .staging)
    (reserved : row.state = .reserved) : row.charged = .reserved := by
  have earlier : ∀ row, db.replicas.get? (cid, nid) = some row → row.state = .reserved →
      row.charged = .reserved := by
    intro row before
    rcases (moves.life.phase consistent.linked cid).staging staging with same | absent
    · exact consistent.stagingReserved cid nid row before same
    · obtain ⟨chunk, known⟩ := consistent.replicaChunk cid nid row before
      rw [Database.phase_eq_none consistent.linked, known] at absent
      cases absent
  have move := moves.rowOrigin stored
  generalize before : db.replicas.get? (cid, nid) = old at move earlier
  cases move with
  | keep => exact earlier row rfl reserved
  | reserve => rfl
  | settle | mark | unverify | delete | vanish | discard => simp at reserved
  | remount old volume owner oldReserved => exact earlier old rfl oldReserved
  | verdict old volume state kind valid owner unverified judged =>
      rcases judged with ⟨_, rfl, _⟩ | ⟨rfl, _⟩ <;> simp at reserved
  | refund old settled => simp [staging] at settled; exact absurd reserved settled
  | retire old deleted cleanup => simp [staging] at deleted

omit consistent in
theorem reservedOrigin {cid : Ident} {nid : NodeId} {row : ReplicaRow}
    (published : db'.phase cid = some .published)
    (stored : db'.replicas.get? (cid, nid) = some row) (reserved : row.state = .reserved) :
    (∃ old, db.replicas.get? (cid, nid) = some old ∧ old.state = .reserved) ∨
    ((∀ other old, db.replicas.get? (cid, other) = some old → old.state ≠ .reserved) ∧
      (∀ other, other ≠ nid →
        db'.replicas.get? (cid, other) = db.replicas.get? (cid, other)) ∧
      db'.Outstanding ⟨.repair, cid, none⟩) := by
  have move := moves.rowOrigin stored
  generalize before : db.replicas.get? (cid, nid) = old at move
  cases move with
  | keep => exact .inl ⟨row, rfl, reserved⟩
  | reserve _ volume free mounted alone =>
      exact .inr (alone published)
  | settle | mark | unverify | delete | vanish | discard => simp at reserved
  | remount old volume owner oldReserved => exact .inl ⟨old, rfl, oldReserved⟩
  | verdict old volume state kind valid owner unverified judged =>
      rcases judged with ⟨_, rfl, _⟩ | ⟨rfl, _⟩ <;> simp at reserved
  | refund old settled => exact .inl ⟨old, rfl, reserved⟩
  | retire old deleted cleanup => simp [published] at deleted

theorem publishedBefore {cid : Ident} {nid : NodeId} {old : ReplicaRow}
    (published : db'.phase cid = some .published)
    (before : db.replicas.get? (cid, nid) = some old) (reserved : old.state = .reserved) :
    db.phase cid = some .published := by
  cases moves.life.phase consistent.linked cid with
  | keep same => exact same ▸ published
  | publish _ staging after rows required ready owner =>
      obtain ⟨chunk, upload, object, known, owned, located, rfl, _⟩ := owner
      have objectStaging : object.state = .staging := by
        rw [Database.phase_of_object known owned located] at staging
        exact Option.some.inj staging
      exact absurd reserved (consistent.allValid known owned located objectStaging ready before)
  | delete present deleted => simp [deleted] at published
  | create absent staging => simp [staging] at published

theorem single {cid : Ident} {first second : NodeId} {row row' : ReplicaRow}
    (published : db'.phase cid = some .published)
    (storedFirst : db'.replicas.get? (cid, first) = some row)
    (storedSecond : db'.replicas.get? (cid, second) = some row')
    (reservedFirst : row.state = .reserved) (reservedSecond : row'.state = .reserved) :
    first = second := by
  rcases moves.reservedOrigin published storedFirst reservedFirst with
    ⟨old, before, oldReserved⟩ | ⟨noneBefore, untouched, _⟩
  · rcases moves.reservedOrigin published storedSecond reservedSecond with
      ⟨old', before', oldReserved'⟩ | ⟨noneBefore, _⟩
    · exact consistent.single cid first second old old'
        (moves.publishedBefore consistent published before oldReserved) before before' oldReserved
        oldReserved'
    · exact absurd oldReserved (noneBefore first old before)
  · by_contra different
    rw [untouched second (Ne.symm different)] at storedSecond
    exact noneBefore second row' storedSecond reservedSecond

theorem ended {cid : Ident} {nid : NodeId} {row : ReplicaRow}
    (deleted : db'.phase cid = some .deleted)
    (stored : db'.replicas.get? (cid, nid) = some row) : row.Ended := by
  by_cases already : db.phase cid = some .deleted
  · have move := moves.rowOrigin stored
    generalize before : db.replicas.get? (cid, nid) = old at move
    have earlier : ∀ row, old = some row → row.Ended :=
      fun row known => consistent.ended cid nid row already (before.trans known)
    cases move with
    | keep => exact earlier row rfl
    | reserve old volume free mounted alone phases => simp [deleted] at phases
    | settle old owner reserved | remount old volume owner reserved | discard old owner reserved =>
        rcases earlier old rfl with other | other <;> simp [other] at reserved
    | mark old valid => rcases earlier old rfl with other | other <;> simp [other] at valid
    | unverify old owner read => rcases earlier old rfl with other | other <;> simp [other] at read
    | verdict old volume state kind valid owner unverified =>
        rcases earlier old rfl with other | other <;> simp [other] at unverified
    | refund old settled => exact earlier old rfl
    | retire old gone cleanup => by_cases gone : old.state = .gone <;> simp [ReplicaRow.Ended, gone]
    | delete old unprotected cleanup => exact .inl rfl
    | vanish old deleting => exact .inr rfl
  · exact (moves.newlyDeleted cid deleted already).1 nid row stored

theorem confirmed {cid : Ident} {chunk : ChunkRow} (stored : db'.chunks.get? cid = some chunk)
    (published : db'.phase cid = some .published) : chunk.state = .confirmed := by
  have kept : ∀ old, db.chunks.get? cid = some old → old.state = .confirmed →
      chunk.state = .confirmed := by
    intro old before confirmed
    obtain ⟨_, after, same, _⟩ := moves.life.chunks before
    obtain rfl := Option.some.inj (stored.symm.trans after)
    exact same.confirmed confirmed
  cases moves.life.phase consistent.linked cid with
  | keep same =>
      have earlier := same ▸ published
      obtain ⟨old, _, _, before, _⟩ := Database.phase_eq_some.mp earlier
      exact kept old before (consistent.confirmed cid old before earlier)
  | publish _ staging after rows required ready owner =>
      obtain ⟨old, _, _, before, _, _, _, confirmed⟩ := owner
      exact kept old before confirmed
  | delete present deleted => simp [deleted] at published
  | create absent staging => simp [staging] at published

theorem unassigned {key : TaskKey} {task : TaskRow} (stored : db'.tasks.get? key = some task)
    (repair : key.kind = .repair) : key.node = none := by
  have move := moves.tasks key
  rw [stored] at move
  generalize before : db.tasks.get? key = old at move
  cases move with
  | keep => exact consistent.unassigned key task before repair
  | enqueue old _ free pending known published => exact (published repair).1
  | claim old | fail old | finish old => exact consistent.unassigned key old before repair

omit consistent in
theorem outstanding {key : TaskKey} (before : db.Outstanding key)
    (unfinished : ∀ task, db'.tasks.get? key = some task →
      TaskMove focus db' key (db.tasks.get? key) (some task) → task.state = .done → False) :
    db'.Outstanding key := by
  obtain ⟨task, stored, active⟩ := before
  have move := moves.tasks key
  cases after : db'.tasks.get? key with
  | none =>
      rw [stored, after] at move
      cases move
  | some task' => exact ⟨task', after, fun done => unfinished task' after (after ▸ move) done⟩

theorem cleaned {cid : Ident} {nid : NodeId} {row : ReplicaRow}
    (stored : db'.replicas.get? (cid, nid) = some row) (deleting : row.state = .deleting) :
    db'.Outstanding ⟨.delete, cid, some nid⟩ := by
  have kept : ∀ old, db.replicas.get? (cid, nid) = some old → old.state = .deleting →
      db'.Outstanding ⟨.delete, cid, some nid⟩ := by
    intro old before oldDeleting
    obtain ⟨task, located, active⟩ := consistent.cleaned cid nid old before oldDeleting
    refine moves.outstanding ⟨task, located, active⟩ ?_
    intro task' after move done
    generalize db.tasks.get? ⟨.delete, cid, some nid⟩ = known at move located
    cases move with
    | keep =>
        cases located
        exact active done
    | enqueue old _ free pending => simp [pending] at done
    | claim old _ owner due running => simp [running] at done
    | fail old _ running pending => simp [pending] at done
    | finish old _ finished cleaned => exact cleaned nid rfl rfl row stored deleting
  have move := moves.rowOrigin stored
  generalize before : db.replicas.get? (cid, nid) = old at move
  cases move with
  | keep => exact kept row before deleting
  | reserve | settle | mark | unverify | vanish | discard => simp at deleting
  | remount old volume owner reserved => simp [reserved] at deleting
  | verdict old volume state kind valid owner unverified judged =>
      rcases judged with ⟨_, rfl, _⟩ | ⟨rfl, _⟩ <;> simp at deleting
  | refund old settled => exact kept old before deleting
  | retire old deleted cleanup => exact cleanup
  | delete old unprotected cleanup => exact cleanup

/-- Outside publication the rows of an existing chunk neither appear nor
disappear. -/
theorem sameRows {cid : Ident} (unpublished : db'.phase cid ≠ some .published)
    (known : db.chunks.get? cid ≠ none) (nid : NodeId) :
    db'.replicas.get? (cid, nid) = none ↔ db.replicas.get? (cid, nid) = none := by
  have move := moves.rows cid nid
  constructor
  · intro absent
    by_contra present
    exact move.persists present absent
  · intro absent
    by_contra present
    obtain ⟨row, stored⟩ := Option.ne_none_iff_exists'.mp present
    rw [absent, stored] at move
    rcases move.fresh with published | ⟨_, unknown⟩
    · exact unpublished published
    · exact known ((Database.phase_eq_none consistent.linked).mp unknown)

theorem replicated {cid : Ident} {chunk : ChunkRow} {upload : UploadRow} {object : ObjectRow}
    (stored : db'.chunks.get? cid = some chunk)
    (owned : db'.uploads.get? chunk.upload = some upload)
    (located : db'.objects.get? upload.object = some object) (staging : object.state = .staging) :
    (db'.replicasOf cid).length = object.replicas := by
  have after := Database.phase_of_object stored owned located
  cases before : db.chunks.get? cid with
  | none =>
      obtain ⟨oid, new, created, row, ids, creation, seq, inRange, rfl⟩ :=
        moves.life.newChunk before stored
      have chunkEq := (creation.created seq inRange).1
      rw [stored, Option.some.injEq] at chunkEq
      subst chunk
      rw [creation.uploads, if_pos rfl, Option.some.injEq] at owned
      subst upload
      rw [creation.objects, if_pos creation.owned, Option.some.injEq] at located
      subst object
      exact (creation.created seq inRange).2
  | some old =>
      obtain ⟨oldUpload, ownedBefore⟩ := consistent.linked.chunkUpload cid old before
      obtain ⟨oldObject, locatedBefore⟩ := consistent.linked.uploadObject _ oldUpload ownedBefore
      obtain ⟨_, chunkAfter, keptChunk, _⟩ := moves.life.chunks before
      obtain rfl := Option.some.inj (stored.symm.trans chunkAfter)
      obtain ⟨_, uploadAfter, sameObject, _⟩ := moves.life.uploads ownedBefore
      obtain rfl := Option.some.inj (owned.symm.trans (keptChunk.upload ▸ uploadAfter))
      obtain ⟨_, objectAfter, keptObject⟩ := moves.life.objects locatedBefore
      obtain rfl := Option.some.inj (located.symm.trans (sameObject ▸ objectAfter))
      have oldPhase := Database.phase_of_object before ownedBefore locatedBefore
      have oldStaging : oldObject.state = .staging := by
        rcases (moves.life.phase consistent.linked cid).staging (staging ▸ after) with
          same | absent
        · exact Option.some.inj (oldPhase.symm.trans same)
        · simp [oldPhase] at absent
      rw [keptObject.replicas,
        ← consistent.replicated cid old oldUpload oldObject before ownedBefore locatedBefore oldStaging]
      exact Database.replicasOf_length_congr
        (moves.sameRows consistent (by simp [after, staging]) (by simp [before]))

theorem preserve : Consistent db' where
  linked := moves.life.linked consistent.linked
  shaped := moves.life.shaped consistent.linked consistent.shaped
  accounted := moves.balance consistent.accounted
  replicaChunk := fun _ _ _ => moves.replicaChunk consistent
  replicaNode := fun _ _ _ => moves.replicaNode consistent
  retired := fun _ _ => moves.retired consistent
  registered := fun _ _ => moves.registered consistent
  mounted := fun _ _ _ _ => moves.mounted consistent
  goneUncharged := fun _ _ _ => moves.goneUncharged consistent
  chargedReserved := fun _ _ _ => moves.chargedReserved consistent
  stagingReserved := fun _ _ _ => moves.stagingReserved consistent
  replicated := fun _ _ _ _ => moves.replicated consistent
  single := fun _ _ _ _ _ => moves.single consistent
  ended := fun _ _ _ => moves.ended consistent
  confirmed := fun _ _ => moves.confirmed consistent
  unassigned := fun _ _ => moves.unassigned consistent
  cleaned := fun _ _ _ => moves.cleaned consistent

end Moves

end Moves

end FileServer.Metadata
