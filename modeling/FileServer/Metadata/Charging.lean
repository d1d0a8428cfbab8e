import FileServer.Metadata.Invariant

/-!
# Charge classes

The state of a replica row and its charge are two columns that different
statements update.  Every transaction keeps them in step except two: a verdict
of `reconcile` that restores a copy whose charge an earlier verdict took, and
the end of a cleanup that began before its row was reserved.
-/

namespace FileServer.Metadata

open FileServer.Relational FileServer.Transition

/-- The row is charged as its state asks for. -/
structure ReplicaRow.Classified (row : ReplicaRow) : Prop where
  reserved : row.state = .reserved ↔ row.charged = .reserved
  valid : row.state = .valid → row.charged = .used
  gone : row.state = .gone → row.charged = .none

namespace ReplicaRow.Classified

variable {row : ReplicaRow}

theorem fresh (volume : Ident) : Classified ⟨volume, .reserved, .reserved⟩ :=
  ⟨by simp, by simp, by simp⟩

theorem used (volume : Ident) : Classified ⟨volume, .valid, .used⟩ :=
  ⟨by simp, by simp, by simp⟩

theorem unread (uncharged : row.charged ≠ .reserved) (reserved : row.state ≠ .reserved)
    (valid : row.state ≠ .valid) (gone : row.state ≠ .gone) : row.Classified :=
  ⟨by simp [reserved, uncharged], by simp [valid], by simp [gone]⟩

theorem retired (classified : row.Classified) : (retiredRow row).Classified := by
  have released : (if row.charged = .reserved then .none else row.charged) ≠ Charge.reserved := by
    split <;> simp_all
  by_cases gone : row.state = .gone
  · refine ⟨?_, ?_, ?_⟩ <;> simp [retiredRow, gone, classified.gone gone]
  · refine unread released ?_ ?_ ?_ <;> simp [retiredRow, gone]

theorem remounted (classified : row.Classified) (volume : Ident) :
    (Database.remounted volume row).Classified := by
  unfold Database.remounted
  split
  · next read =>
      refine unread ?_ (by simp) (by simp) (by simp)
      intro charged
      rcases read with valid | bad
      · simp [classified.reserved.mpr charged] at valid
      · simp [classified.reserved.mpr charged] at bad
  · split
    · exact ⟨classified.reserved, classified.valid, classified.gone⟩
    · exact classified

end ReplicaRow.Classified

namespace Database

def Classified (db : Database) : Prop :=
  ∀ cid nid row, db.replicas.get? (cid, nid) = some row → row.Classified

variable {db db' : Database} {c : Config} {now : Time}

namespace Classified

theorem congr (classified : db.Classified) (replicas : db'.replicas = db.replicas) :
    db'.Classified :=
  fun cid nid row stored => classified cid nid row (replicas ▸ stored)

theorem modify (classified : db.Classified) {cid : Ident} {nid : NodeId}
    (f : ReplicaRow → ReplicaRow)
    (rewritten : ∀ row, db.replicas.get? (cid, nid) = some row → row.Classified →
      (f row).Classified) : (db.modifyReplica cid nid f).Classified := by
  intro other target row stored
  simp only [modifyReplica, Table.get?_modify] at stored
  split at stored
  · next same =>
      obtain ⟨old, before, rfl⟩ := Option.map_eq_some_iff.mp stored
      obtain ⟨rfl, rfl⟩ := Prod.mk.inj same
      exact rewritten old before (classified _ _ old before)
  · exact classified _ _ row stored

theorem uncharge (classified : db.Classified) {cid : Ident} {nid : NodeId} (length : Nat)
    (unread : ∀ row, db.replicas.get? (cid, nid) = some row →
      row.state ≠ .reserved ∧ row.state ≠ .valid) : (db.uncharge cid nid length).Classified := by
  rw [uncharge_eq]
  refine classified.modify (fun row => { row with charged := .none }) fun row stored _ => ?_
  obtain ⟨reserved, valid⟩ := unread row stored
  exact ⟨by simp [reserved], fun same => absurd same valid, fun _ => rfl⟩

theorem reserveOn (classified : db.Classified) (cid : Ident) (nid : NodeId) (volume : Ident)
    (length : Nat) : (db.reserveOn cid nid volume length).Classified := by
  intro other target row stored
  rw [reserveOn_eq] at stored
  simp only [Table.get?_upsert] at stored
  split at stored
  · cases before : db.replicas.get? (cid, nid) <;> simp only [before, Option.elim] at stored <;>
      exact Option.some.inj stored ▸ .fresh volume
  · exact classified _ _ row stored

theorem reserveAll (classified : db.Classified) (cid : Ident) (length : Nat)
    (targets : List (NodeId × NodeRow)) : (Database.reserveAll cid length targets db).Classified :=
  foldl_invariant Classified _ targets
    (fun _ target _ kept => kept.reserveOn cid target.1 target.2.volume length) classified

theorem settle (classified : db.Classified) (cid : Ident) (nid : NodeId) (length : Nat) :
    (db.settle cid nid length).Classified := by
  rw [settle_eq]
  exact classified.modify (fun row => { row with state := .valid, charged := .used })
    fun row _ _ => .used row.volume

theorem retire (classified : db.Classified) {upload : Ident} {row : UploadRow}
    (stored : db.uploads.get? upload = some row) (state : UploadState) :
    (Database.retire c now db upload state).Classified := by
  obtain ⟨looped, retirement⟩ := retire_ok c now stored state
  intro cid nid replica present
  rw [retirement.get?_replicas] at present
  obtain ⟨old, before, rfl⟩ := Option.map_eq_some_iff.mp present
  have known := classified cid nid old before
  split
  · exact known.retired
  · exact known

theorem init (classified : db.Classified) {owner name : String} {size : Int}
    {ident : Nat → Ident} {reply : Reply}
    (initialized : Database.init c now db owner size name ident = .ok (reply, db')) :
    db'.Classified := by
  obtain ⟨opened, _, _, _, _, _, _, _, _, _, _, replicas, _, _, executed, _⟩ := init_ok initialized
  refine foldlM_invariant Classified _ _ ?_ executed (classified.congr replicas)
  intro middle seq next _ kept body
  obtain ⟨inserted, targets, opening, _, _, rfl⟩ := initChunk_ok body
  exact (kept.congr opening.replicas).reserveAll _ _ targets

theorem condemn (classified : db.Classified) (cid : Ident) (nid : NodeId) :
    (db.modifyReplica cid nid fun row =>
      if row.state = .valid then { row with state := .bad } else row).Classified := by
  refine classified.modify _ fun row _ known => ?_
  split
  · next valid => exact .unread (by simp [known.valid valid]) (by simp) (by simp) (by simp)
  · exact known

theorem dispatch (classified : db.Classified) {ident : Nat → Ident} {owner : String}
    {command : Command} {reply : Reply}
    (dispatched : Database.dispatch c now ident db owner command = .ok (reply, db')) :
    db'.Classified := by
  simp only [Database.dispatch, bind_eq_ok] at dispatched
  obtain ⟨_, _, dispatched⟩ := dispatched
  cases command with
  | init size name => exact classified.init dispatched
  | prepare upload seq sha =>
      obtain ⟨_, _, _, _, _, _, _, _, _, _, _, _, _, _, _, rfl, _⟩ := prepare_ok dispatched
      exact classified
  | complete upload =>
      obtain ⟨_, _, _, _, _, _, ⟨_, _, rfl⟩ | ⟨_, _, _, _, rfl⟩⟩ := complete_ok dispatched <;>
        exact classified
  | cancel upload =>
      simp only [cancel, bind_eq_ok, Prod.exists, active_ok] at dispatched
      obtain ⟨row, object, ⟨stored, _⟩, outcome⟩ := dispatched
      split at outcome
      · simp only [pure_eq_ok, Prod.mk.injEq] at outcome
        exact outcome.2 ▸ classified
      · simp only [bind_eq_ok, pure_eq_ok, Prod.mk.injEq] at outcome
        obtain ⟨_, _, _, rfl⟩ := outcome
        exact classified.retire stored _
  | delete oid =>
      simp only [delete, bind_eq_ok] at dispatched
      obtain ⟨object, _, _, _, outcome⟩ := dispatched
      split at outcome
      · simp only [pure_eq_ok, Prod.mk.injEq] at outcome
        exact outcome.2 ▸ classified
      · simp only [bind_eq_ok, found_eq_ok, pure_eq_ok, Prod.mk.injEq] at outcome
        obtain ⟨upload, selected, _, rfl⟩ := outcome
        obtain ⟨row, stored, _⟩ := db.uploadOf_eq_some selected
        exact classified.retire stored _
  | badReplica oid cid nid =>
      simp only [badReplica, bind_eq_ok, pure_eq_ok, Prod.mk.injEq] at dispatched
      obtain ⟨_, _, _, _, _, rfl⟩ := dispatched
      exact classified.condemn cid nid
  | status upload cursor | manifest oid | locations oid seq =>
      simp only [bind_eq_ok, pure_eq_ok, Prod.mk.injEq] at dispatched
      obtain ⟨_, _, _, rfl⟩ := dispatched
      exact classified

theorem keyMove (classified : db.Classified) {e : StrictEngine} {ident : Nat → Ident}
    {request : Internal} {focus : Focus} (move : KeyMove e c now db ident request focus db') :
    db'.Classified := by
  cases move with
  | same => exact classified
  | command command reply focus db' dispatched => exact classified.dispatch dispatched
  | prepare => exact classified
  | retire sel upload row deletes selects stored => exact classified.retire stored _
  | report sel oid object cid nid => exact classified.condemn cid nid

theorem confirmCommit (classified : db.Classified) {op : Confirming} {bytes : Nat}
    (committed : db.confirmCommit c now op = .ok (bytes, db')) : db'.Classified := by
  obtain ⟨_, _, settled, _, _, _, _, _, _, executed, rfl⟩ := confirmCommit_ok committed
  refine Classified.congr (foldlM_invariant Classified _ op.positions ?_ executed classified) rfl
  intro middle position next _ kept body
  obtain ⟨row, _, rfl⟩ := confirmReplica_ok body
  split
  · exact kept.settle _ _ _
  · exact kept

theorem register (classified : db.Classified) {beat : Beat}
    (accepted : db.register c beat = .ok db') : db'.Classified := by
  intro cid nid row stored
  rw [(register_ok accepted).get?_replicas] at stored
  obtain ⟨old, before, rfl⟩ := Option.map_eq_some_iff.mp stored
  have known := classified cid nid old before
  split
  · exact known.remounted _
  · exact known

theorem maintain (classified : db.Classified) (consistent : Consistent db) :
    (db.maintain c now).Classified := by
  have refreshed : Steps .none [] db (db.refreshHealth c now) := .single refreshHealth_moves
  refine foldl_invariant Classified _ _ ?_ (foldl_invariant
    (fun middle => Steps .none [] (db.refreshHealth c now) middle ∧ middle.Classified) _ _ ?_
      ⟨.refl, classified⟩).2
  · intro middle entry _ kept
    split <;> exact kept
  · rintro middle upload expired ⟨steps, kept⟩
    obtain ⟨row, before⟩ := mem_expiredUploads expired
    obtain ⟨row', present, _⟩ := steps.grown.uploads upload row before
    have known := steps.consistent (refreshed.consistent consistent)
    exact ⟨steps.tail (retire_moves known present (.inr rfl)), kept.retire present _⟩

theorem reviewFile (classified : db.Classified) (view : NodeView) (cid : Ident) :
    (db.reviewFile c now view cid).Classified := by
  unfold Database.reviewFile
  split
  · exact classified
  · split
    · exact classified
    · split
      · exact classified
      · split <;> exact classified

theorem reverify (classified : db.Classified) (consistent : Consistent db) {view : NodeView}
    {check : Check} {valid : Bool} (judged : db.reverify view check valid = .ok db')
    (charged : valid = true → ∀ node row, db.nodes.get? view.node = some node →
      node.volume = view.volume → node.inst = view.inst →
      db.replicas.get? (check.chunk, view.node) = some row → row.state = .unverified →
        row.charged = .used) : db'.Classified := by
  obtain ⟨replica, node, stored, located, outcome⟩ := reverify_ok judged
  rcases outcome with ⟨volume, inst, marked, shape, rfl⟩ | ⟨_, rfl⟩
  · have unreserved : replica.state = .unverified → replica.charged ≠ .reserved := by
      intro unverified taken
      have reserved := (classified _ _ replica stored).reserved.mpr taken
      simp [unverified] at reserved
    have judgedRow : marked.Classified := by
      rw [shape]
      refine classified.modify _ fun row present known => ?_
      obtain rfl := Option.some.inj (stored.symm.trans present)
      split
      · next unverified =>
          cases valid with
          | true =>
              have used := charged rfl node replica located volume inst stored unverified
              exact ⟨by simp [used], by simp [used], by simp⟩
          | false => exact .unread (unreserved unverified) (by simp) (by simp) (by simp)
      · exact known
    split
    · next replaced =>
        refine judgedRow.uncharge _ fun row present => ?_
        rw [← not_or]
        intro written
        rw [shape] at present
        simp only [modifyReplica, Table.get?_modify_self, stored, Option.map_some,
          Option.some.injEq] at present
        split at present
        · subst present
          simp [replaced.1] at written
        · subst present
          refine replaced.2 ?_
          rw [consistent.mounted _ _ replica node stored located written, volume]
    · exact judgedRow
  · exact classified

theorem deleteBegin (classified : db.Classified) (consistent : Consistent db) {job : Job}
    {deletion : Deletion} (begun : db.deleteBegin c now job = .ok (deletion, db')) :
    db'.Classified := by
  have unprotected : ∀ row, db.replicas.get? (job.task.chunk, deletion.node) = some row →
      ¬Protected row := fun _ stored => deleteBegin_unprotected consistent begun stored
  obtain ⟨nid, node, _, _, _, _, rfl, rfl⟩ := deleteBegin_ok begun
  refine classified.modify _ fun row stored known => ?_
  refine .unread (fun charged => ?_) (by simp) (by simp) (by simp)
  exact unprotected row stored (.inr (.inl (known.reserved.mpr charged)))

theorem deleteCommit (classified : db.Classified) (consistent : Consistent db) {job : Job}
    {deletion : Deletion} (known : deletion.Known db job.task.chunk)
    (committed : db.deleteCommit now job deletion = .ok db')
    (ended : ∀ row, db.replicas.get? (job.task.chunk, deletion.node) = some row →
      row.state ≠ .reserved ∧ row.state ≠ .valid) : db'.Classified := by
  obtain ⟨node, uncharged, _, _, _, _, released, rfl⟩ := deleteCommit_ok committed
  have free : uncharged.Classified ∧ ∀ row,
      uncharged.replicas.get? (job.task.chunk, deletion.node) = some row →
        row.charged = .none := by
    cases sized : deletion.length with
    | none =>
        simp only [sized, Option.elim_none] at released
        refine ⟨released ▸ classified, fun row stored => ?_⟩
        obtain ⟨chunk, present⟩ := consistent.replicaChunk _ _ row (released ▸ stored)
        rw [known.unknown sized] at present
        cases present
    | some length =>
        simp only [sized, Option.elim_some] at released
        subst uncharged
        refine ⟨?_, fun row stored => ?_⟩
        · exact classified.uncharge length ended
        · obtain ⟨old, _, rfl⟩ := uncharge_row stored
          rfl
  refine Classified.congr (free.1.modify (fun row => if row.state = .deleting then
    { row with state := .gone } else row) fun row stored kept => ?_) rfl
  split
  · exact ⟨by simp [free.2 row stored], by simp, fun _ => free.2 row stored⟩
  · exact kept

theorem repairBegin (classified : db.Classified) {job : Job} {result : Option Repair}
    (begun : db.repairBegin c now job = .ok (result, db')) : db'.Classified := by
  obtain ⟨chunk, _, _, _, _, _, _, _, outcome⟩ := repairBegin_ok begun
  rcases outcome with ⟨_, _, rfl⟩ | ⟨_, _, target, _, targeted, _, _⟩
  · exact classified
  · rcases targeted.choice with ⟨_, _, _, rfl⟩ | ⟨_, _, node, _, _, rfl⟩
    · exact classified
    · exact classified.reserveOn _ _ _ _

theorem repairCommit (classified : db.Classified) {job : Job} {repair : Repair}
    (committed : db.repairCommit c now job repair = .ok db') : db'.Classified := by
  obtain ⟨_, _, _, copied, _, _, _, _, _, _, _, _, _, outcome, rfl⟩ := repairCommit_ok committed
  rcases outcome with ⟨_, rfl⟩ | ⟨_, rfl⟩
  · intro cid nid row stored
    simp only [modifyTask, enqueue_eq, modifyReplica, uncharge_eq, Table.get?_modify] at stored
    split at stored
    · obtain ⟨_, before, rfl⟩ := Option.map_eq_some_iff.mp stored
      obtain ⟨old, _, rfl⟩ := Option.map_eq_some_iff.mp before
      exact .unread (by simp) (by simp) (by simp) (by simp)
    · exact classified cid nid row stored
  · exact classified.settle job.task.chunk repair.target repair.length

end Classified

def readableBytes (db : Database) (nid : NodeId) : Int :=
  db.replicas.sum fun key row =>
    if key.2 = nid ∧ row.state = .valid then (db.lengthOf key.1 : Int) else 0

theorem Classified.readableBytes_le (classified : db.Classified) (nid : NodeId) :
    db.readableBytes nid ≤ db.chargedBytes .used nid := by
  have split : db.chargedBytes .used nid = db.readableBytes nid +
      db.replicas.sum fun key row => if key.2 = nid ∧ row.charged = .used ∧ row.state ≠ .valid
        then (db.lengthOf key.1 : Int) else 0 := by
    unfold readableBytes chargedBytes
    rw [← Table.sum_add]
    refine db.replicas.sum_congr fun key row stored => ?_
    have valid := (classified key.1 key.2 row stored).valid
    by_cases here : key.2 = nid <;> by_cases read : row.state = .valid <;> simp [here, read, valid]
  have rest : 0 ≤ db.replicas.sum fun key row =>
      if key.2 = nid ∧ row.charged = .used ∧ row.state ≠ .valid
        then (db.lengthOf key.1 : Int) else 0 := by
    refine db.replicas.sum_nonneg fun key row _ => ?_
    split <;> simp
  omega

end Database

/-- The step commits a verdict that restores an uncharged copy, or a cleanup
whose row was reserved after the cleanup began. -/
inductive Miscounts (σ : State) : Action → Prop where
  | verdict (view check left views node row)
      (judged : σ.maintenance = .judged view check true left views)
      (located : σ.db.nodes.get? view.node = some node) (volume : node.volume = view.volume)
      (inst : node.inst = view.inst)
      (stored : σ.db.replicas.get? (check.chunk, view.node) = some row)
      (unverified : row.state = .unverified) (uncharged : row.charged ≠ .used) :
      Miscounts σ .reverify
  | cleanup (w c job deletion node row) (removed : σ.workers w = .removed job deletion)
      (fenced : σ.db.Fence σ.now job) (located : σ.db.nodes.get? deletion.node = some node)
      (inst : node.inst = deletion.inst) (volume : node.volume = deletion.volume)
      (stored : σ.db.replicas.get? (job.task.chunk, deletion.node) = some row)
      (live : row.state = .reserved ∨ row.state = .valid) : Miscounts σ (.commit w c)

section Steps

variable {σ σ' : State} {action : Action}

theorem WorkerMove.classified {w : Nat} {before worker : Worker} {db : Database}
    (move : WorkerMove σ w action before worker db) (here : σ.workers w = before)
    (invariant : σ.Invariant) (classified : σ.db.Classified) (sound : ¬Miscounts σ action) :
    db.Classified := by
  cases move with
  | deleteBegin c job deletion db deletes begun =>
      exact classified.deleteBegin invariant.consistent begun
  | repairBegin c job repair db repairs begun => exact classified.repairBegin begun
  | repairExit c job db repairs begun => exact classified.repairBegin begun
  | repairCommit c job repair db committed => exact classified.repairCommit committed
  | deleteCommit c job deletion db committed =>
      obtain ⟨_, _, known⟩ := (invariant.workers w).deletion job deletion (by rw [here]; rfl)
      obtain ⟨node, _, fenced, located, inst, volume, _⟩ := Database.deleteCommit_ok committed
      refine classified.deleteCommit invariant.consistent known committed fun row stored => ?_
      rw [← not_or]
      exact fun live =>
        sound (.cleanup w c job deletion node row here fenced located inst volume stored live)
  | _ => exact classified

theorem MaintenanceMove.classified {before maintenance : Maintenance} {db : Database}
    (move : MaintenanceMove σ action before maintenance db) (here : σ.maintenance = before)
    (invariant : σ.Invariant) (classified : σ.db.Classified) (sound : ¬Miscounts σ action) :
    db.Classified := by
  cases move with
  | maintain c => exact classified.maintain invariant.consistent
  | review c view cid ids last more views => exact classified.reviewFile view cid
  | reverify view check valid left views db judged =>
      refine classified.reverify invariant.consistent judged ?_
      rintro rfl node row located volume inst stored unverified
      by_contra uncharged
      exact sound
        (.verdict view check left views node row here located volume inst stored unverified uncharged)
  | _ => exact classified

theorem step_classified (reached : Reachable metadata σ)
    (stepped : metadata.step σ action = some σ') (sound : ¬Miscounts σ action)
    (classified : σ.db.Classified) : σ'.db.Classified := by
  have invariant := reachable_invariant reached
  cases happens stepped with
  | tick | beat | refuse | reject | dropBeat => exact classified
  | request c owner command ident fresh =>
      show (σ.outcome _).Classified
      cases dispatched : σ.db.dispatch c σ.now ident owner command with
      | ok result => exact classified.dispatch dispatched
      | error failure => exact classified
  | requestBy c e request ident fresh =>
      obtain ⟨focus, move⟩ := σ.keyMove invariant.consistent c e request ident
      exact classified.keyMove move
  | register i c beat db present registered => exact classified.register registered
  | confirm _ i op db move =>
      cases move with
      | commit c op bytes db present finished committed => exact classified.confirmCommit committed
      | _ => exact classified
  | worker _ w worker db move => exact move.classified rfl invariant classified sound
  | maintenance _ maintenance db move => exact move.classified rfl invariant classified sound

theorem Miscounts.unclassified (miscounts : Miscounts σ action) (invariant : σ.Invariant)
    (stepped : metadata.step σ action = some σ') : ¬σ'.db.Classified := by
  intro classified
  have taken : σ.step action = some σ' := stepped
  cases miscounts with
  | verdict view check left views node row judged located volume inst stored unverified uncharged =>
      have restored : σ.db.reverify view check true = .ok (σ.db.modifyReplica check.chunk view.node
          fun row => if row.state = .unverified then { row with state := .valid, volume := view.volume }
            else row) := by
        simp [Database.reverify, found, stored, located, volume, inst, pure, Except.pure]
      simp only [State.step, State.maintenanceStep, judged, restored, Option.some.injEq] at taken
      subst taken
      have now := classified check.chunk view.node _ (by
        simp only [Database.modifyReplica, Table.get?_modify_self, stored, Option.map_some]
        rfl)
      simp only [unverified, if_true] at now
      exact uncharged (now.valid rfl)
  | cleanup w c job deletion node row removed fenced located inst volume stored live =>
      obtain ⟨_, _, known⟩ := (invariant.workers w).deletion job deletion (by rw [removed]; rfl)
      obtain ⟨chunk, present⟩ := invariant.consistent.replicaChunk _ _ row stored
      obtain ⟨length, sized⟩ : ∃ length, deletion.length = some length := by
        cases sized : deletion.length with
        | none => simp [known.unknown sized] at present
        | some length => exact ⟨length, rfl⟩
      have committed : ∃ db, σ.db.deleteCommit σ.now job deletion = .ok db := by
        simp only [Database.deleteCommit, Database.fence, bind_eq_ok, require_eq_ok, found_eq_ok,
          pure_eq_ok]
        exact ⟨_, ⟨⟩, fenced, node, located, ⟨⟩, ⟨inst, volume⟩, rfl⟩
      obtain ⟨db, committed⟩ := committed
      simp only [State.step, State.workerStep, State.commitJob, removed, committed,
        Option.some.injEq] at taken
      subst taken
      obtain ⟨_, uncharged, _, _, _, _, released, rfl⟩ := Database.deleteCommit_ok committed
      simp only [sized, Option.elim_some, Database.uncharge_eq] at released
      have undeleted : row.state ≠ .deleting := by
        rcases live with state | state <;> simp [state]
      have after := classified job.task.chunk deletion.node { row with charged := .none } (by
        subst released
        simp [State.setWorker, Database.finishTask, Database.modifyTask, Database.modifyReplica,
          stored, undeleted])
      rcases live with reserved | valid
      · simpa using after.reserved.mp reserved
      · simpa using after.valid valid

end Steps

/-- Every row of every state of a run is charged as its state asks for, so that
every readable byte is in the counter of its node, exactly when no step of the
run miscounts. -/
theorem rows_classified {history : List (Event State Action)} {σ : State}
    (run : Run metadata history σ) :
    (∀ earlier, Visited history σ earlier →
      (∀ cid nid row, earlier.db.replicas.get? (cid, nid) = some row → row.Classified) ∧
      ∀ nid node, earlier.db.nodes.get? nid = some node →
        earlier.db.readableBytes nid ≤ node.usedBytes) ↔
    ∀ event ∈ history, ¬Miscounts event.before event.action := by
  constructor
  · intro kept event membership miscounts
    obtain ⟨reached, stepped⟩ := run.event membership
    exact miscounts.unclassified (reachable_invariant reached) stepped
      (kept event.after (run.visitedAfter membership)).1
  · intro sound earlier seen
    have classified : Reachable metadata earlier ∧ earlier.db.Classified := by
      refine run.visitedUnder (fun σ => Reachable metadata σ ∧ σ.db.Classified)
        (fun event => ¬Miscounts event.before event.action) ⟨Run.start.reachable, ?_⟩ ?_ sound seen
      · intro cid nid row stored
        simp [metadata, State.initial, Database.empty] at stored
      · rintro before action after ⟨reached, kept⟩ counted stepped
        exact ⟨reached.next stepped, step_classified reached stepped counted kept⟩
    refine ⟨classified.2, fun nid node located => ?_⟩
    have consistent := (reachable_invariant classified.1).consistent
    rw [(consistent.accounted nid node located).2]
    exact classified.2.readableBytes_le nid

/-- The copies of the uploaded byte are charged as they should be. -/
theorem rows_classified_uploaded : uploaded.db.readableBytes 1 ≤ 1 := by
  have sound : ∀ event ∈ metadata.events metadata.initial uploadActions,
      ¬Miscounts event.before event.action := by
    intro event membership miscounts
    have listed := System.action_mem_of_mem_events membership
    generalize event.action = action at listed miscounts
    cases miscounts <;> simp [uploadActions, heartbeatActions] at listed
  have stored : uploaded.db.nodes.get? 1 =
      some ⟨"first:9000", 101, 201, 0, 100, 100, 0, 1, .healthy⟩ := by decide +kernel
  exact ((rows_classified uploaded_run).mpr sound uploaded (.last _ _)).2 1 _ stored

/-- The first node comes back with a new volume, fails its check, and comes
back once more with its old volume. -/
def returnActions : List Action :=
  uploadActions ++
    [.tick 5, .beat 0 installation 1 111 301 100 100, .register 0 installation,
      .maintain installation, .scan installation, .visit, .checkAsk, .checkAnswer false, .reverify,
      .stopMaintenance,
      .tick 5, .beat 0 installation 1 121 201 100 100, .register 0 installation,
      .maintain installation, .scan installation, .visit, .checkAsk, .checkAnswer true, .reverify]

def returned : State :=
  (metadata.execute metadata.initial returnActions).get (by decide +kernel)

theorem returned_run : Run metadata (metadata.events metadata.initial returnActions) returned :=
  metadata.run returnActions _

/-- The copy on the returned volume is valid and charged to nobody. -/
theorem classes_drift : ¬∀ σ : State, Reachable metadata σ → ∀ cid nid row,
    σ.db.replicas.get? (cid, nid) = some row →
      (row.state = .reserved ↔ row.charged = .reserved) ∧
      (row.state = .valid → row.charged = .used) ∧ (row.state = .gone → row.charged = .none) := by
  intro classified
  have stored : returned.db.replicas.get? (1002, 1) = some ⟨201, .valid, .none⟩ := by
    decide +kernel
  have used := (classified _ returned_run.reachable 1002 1 _ stored).2.1 rfl
  cases used

end FileServer.Metadata
