import FileServer.Metadata.Deferrals
import Mathlib.Data.List.TakeWhile

/-!
# Write authorizations and the cleanup of deleted objects

An authorization is signed by `positions`, or by a repair after its first
transaction has ended.  The cleanup that `retire` schedules waits until every
authorization has expired, unless the deletion overtakes a repair that is about
to sign, or a cleanup of the same copy is under way.
-/

namespace FileServer.Metadata

open FileServer.Relational FileServer.Transition

/-- The authorizations that `positions` signs before it meets a location that
is unavailable. -/
def Database.signed (c : Config) (now : Time) (db : Database) (cid : Ident) (upload : Option Value)
    (length : Nat) (sha : Sha) : List Ticket :=
  ((db.writable cid).takeWhile fun entry => entry.2.2.Alive c now).map fun entry =>
    ⟨upload, cid, length, sha, entry.1, entry.2.2.volume, entry.2.2.inst, now + c.authTtl⟩

inductive Signs (σ : State) : Action → Ticket → Prop where
  | prepare (c owner upload seq ident row object cid chunk sha ticket)
      (known : (c.users.lookup owner).isSome)
      (active : σ.db.active σ.now upload (some owner) false = .ok (row, object))
      (opened : row.state = .uploading ∧ σ.now < row.expires)
      (selected : σ.db.chunkAt upload seq = some (cid, chunk))
      (compatible : chunk.sha = none ∨ chunk.sha = some sha)
      (signed : ticket ∈ σ.db.signed c σ.now cid (some (.ident upload)) chunk.length sha) :
      Signs σ (.request c owner (.prepare upload seq (some sha)) ident) ticket
  | prepareBy (c e request ident sel row object position sha cid chunk ticket)
      (prepares : request.cmd = .prepare) (known : (c.users.lookup request.owner).isSome)
      (selects : e.selector request.fields.uploadId = .ok sel)
      (active : Database.activeBy e.toEngine σ.db sel request.owner = .ok (row, object))
      (opened : row.state = .uploading ∧ σ.now < row.expires)
      (sequence : request.fields.seq.bind Value.int? = some position)
      (given : request.fields.sha256.bind Value.sha? = some sha)
      (selected : (σ.db.chunksAtBy e.toEngine sel position).head? = some (cid, chunk))
      (compatible : chunk.sha = none ∨ chunk.sha = some sha)
      (signed : ticket ∈ σ.db.signed c σ.now cid request.fields.uploadId chunk.length sha) :
      Signs σ (.requestBy c e request ident) ticket
  | confirm (i c upload owner seq row object cid chunk sha ticket)
      (absent : σ.confirms i = none)
      (active : σ.db.active σ.now upload owner true = .ok (row, object))
      (selected : σ.db.chunkAt upload seq = some (cid, chunk)) (fixed : chunk.sha = some sha)
      (signed : ticket ∈ σ.db.signed c σ.now cid (some (.ident upload)) chunk.length sha) :
      Signs σ (.confirm i c upload owner seq) ticket
  | confirmCommit (i c op row object ticket) (present : σ.confirms i = some op)
      (finished : op.left = []) (sound : c.confirmFault = false)
      (active : σ.db.active σ.now op.upload op.owner true = .ok (row, object))
      (signed : ticket ∈
        σ.db.signed c σ.now op.chunk (some (.ident op.upload)) op.length op.sha) :
      Signs σ (.confirmCommit i c) ticket
  | repair (w c job repair sha) (fetched : σ.workers w = .fetched job repair sha) :
      Signs σ (.sendPut w c) ⟨some (.ident repair.upload), job.task.chunk, repair.length, sha,
        repair.target, repair.volume, repair.inst, σ.now + c.authTtl⟩

def Signed (history : List (Event State Action)) (ticket : Ticket) : Prop :=
  ∃ event ∈ history, Signs event.before event.action ticket

namespace Worker

def Signing (cid : Ident) : Worker → Prop
  | .fetching job _ left => job.task.chunk = cid ∧ left ≠ []
  | .fetched job _ _ => job.task.chunk = cid
  | _ => False

def Removing (cid : Ident) (nid : NodeId) : Worker → Prop
  | .removing job deletion => job.task.chunk = cid ∧ deletion.node = nid
  | _ => False

end Worker

def Action.delay : Action → Nat
  | .request c .. | .requestBy c .. | .maintain c => c.authTtl + 30
  | _ => 0

/-- A deletion overtakes a repair of a chunk that has not signed yet, or meets
a cleanup of a copy that does not wait for an authorization already signed. -/
inductive Overtakes (earlier : List (Event State Action)) (event : Event State Action) : Prop where
  | repair (cid w) (before : event.before.db.phase cid ≠ some .deleted)
      (after : event.after.db.phase cid = some .deleted)
      (signing : (event.before.workers w).Signing cid) : Overtakes earlier event
  | thread (ticket w) (before : event.before.db.phase ticket.chunk ≠ some .deleted)
      (after : event.after.db.phase ticket.chunk = some .deleted) (signed : Signed earlier ticket)
      (alive : event.before.now ≤ ticket.expires)
      (removing : (event.before.workers w).Removing ticket.chunk ticket.node) :
      Overtakes earlier event
  | task (ticket) (before : event.before.db.phase ticket.chunk ≠ some .deleted)
      (after : event.after.db.phase ticket.chunk = some .deleted) (signed : Signed earlier ticket)
      (alive : event.before.now ≤ ticket.expires)
      (early : ¬event.before.db.Delays ticket.chunk ticket.node ticket.expires
        (event.before.now + event.action.delay)) : Overtakes earlier event

/-- No deletion of the run overtakes anything. -/
def Orderly : List (Event State Action) → Prop
  | [] => True
  | event :: earlier => ¬Overtakes earlier event ∧ Orderly earlier

section Steps

variable {σ σ' : State} {action : Action}

theorem Database.Waits.dispatch {db db' : Database} {c : Config} {now : Time} {cid : Ident}
    {nid : NodeId} {bound : Time} (consistent : Consistent db) {ident : Nat → Ident}
    {owner : String} {command : Command} {reply : Reply}
    (dispatched : Database.dispatch c now ident db owner command = .ok (reply, db'))
    (waits : db.Waits cid nid bound (now + ↑(c.authTtl + 30)))
    (deleted : db'.phase cid = some .deleted) : db'.Scheduled cid nid bound := by
  have retired : ∀ {upload row}, db.uploads.get? upload = some row →
      db' = Database.retire c now db upload .cancelled → db'.Scheduled cid nid bound := by
    rintro upload row stored rfl
    rcases waits.retire consistent stored .cancelled with scheduled | ⟨live, _⟩
    · exact scheduled
    · exact absurd deleted live
  simp only [Database.dispatch, bind_eq_ok] at dispatched
  obtain ⟨_, _, dispatched⟩ := dispatched
  cases command with
  | init size name => exact waits.quiet (.init consistent dispatched) deleted
  | prepare upload seq sha =>
      obtain ⟨_, _, cid', _, fixed, _, _, _, _, _, _, _, _, _, _, rfl, _⟩ := prepare_ok dispatched
      exact waits.quiet (.modifyChunk cid' _ fun _ => rfl) deleted
  | complete upload =>
      obtain ⟨_, _, _, _, _, _, ⟨_, _, rfl⟩ | ⟨_, _, _, _, rfl⟩⟩ := complete_ok dispatched
      · exact waits.quiet (.refl _) deleted
      · exact waits.quiet ⟨fun _ => publish_live, fun _ _ _ stored _ => stored⟩ deleted
  | cancel upload =>
      simp only [cancel, bind_eq_ok, Prod.exists, active_ok] at dispatched
      obtain ⟨row, object, ⟨stored, _⟩, outcome⟩ := dispatched
      split at outcome
      · simp only [pure_eq_ok, Prod.mk.injEq] at outcome
        exact waits.quiet (outcome.2 ▸ .refl db) deleted
      · simp only [bind_eq_ok, pure_eq_ok, Prod.mk.injEq] at outcome
        obtain ⟨_, _, _, result⟩ := outcome
        exact retired stored result.symm
  | delete oid =>
      simp only [delete, bind_eq_ok] at dispatched
      obtain ⟨object, _, _, _, outcome⟩ := dispatched
      split at outcome
      · simp only [pure_eq_ok, Prod.mk.injEq] at outcome
        exact waits.quiet (outcome.2 ▸ .refl db) deleted
      · simp only [bind_eq_ok, found_eq_ok, pure_eq_ok, Prod.mk.injEq] at outcome
        obtain ⟨upload, selected, _, result⟩ := outcome
        obtain ⟨row, stored, _⟩ := db.uploadOf_eq_some selected
        exact retired stored result.symm
  | badReplica oid cid' nid' =>
      simp only [badReplica, bind_eq_ok, pure_eq_ok, Prod.mk.injEq] at dispatched
      obtain ⟨_, _, _, _, _, rfl⟩ := dispatched
      have marked : db.Quiet (db.modifyReplica cid' nid' fun row =>
          if row.state = .valid then { row with state := .bad } else row) :=
        .ofSame ⟨rfl, rfl, rfl, rfl⟩ rfl
      exact waits.quiet (marked.trans (.enqueue _ _ _ _ _)) deleted
  | status upload cursor | manifest oid | locations oid seq =>
      simp only [bind_eq_ok, pure_eq_ok, Prod.mk.injEq] at dispatched
      obtain ⟨_, _, _, rfl⟩ := dispatched
      exact waits.quiet (.refl _) deleted

theorem Database.Waits.keyMove {db db' : Database} {c : Config} {now : Time} {cid : Ident}
    {nid : NodeId} {bound : Time} (consistent : Consistent db) {e : StrictEngine}
    {ident : Nat → Ident} {request : Internal} {focus : Focus}
    (move : KeyMove e c now db ident request focus db')
    (waits : db.Waits cid nid bound (now + ↑(c.authTtl + 30)))
    (deleted : db'.phase cid = some .deleted) : db'.Scheduled cid nid bound := by
  cases move with
  | same => exact waits.quiet (.refl _) deleted
  | command command reply focus db' dispatched => exact waits.dispatch consistent dispatched deleted
  | prepare sel position sha cid' => exact waits.quiet (.modifyChunk cid' _ fun _ => rfl) deleted
  | retire sel upload row deletes selects stored =>
      rcases waits.retire consistent stored .cancelled with scheduled | ⟨live, _⟩
      · exact scheduled
      · exact absurd deleted live
  | report sel oid object cid' nid' =>
      have marked : db.Quiet (db.modifyReplica cid' nid' fun row =>
          if row.state = .valid then { row with state := .bad } else row) :=
        .ofSame ⟨rfl, rfl, rfl, rfl⟩ rfl
      exact waits.quiet (marked.trans (.enqueue _ _ _ _ _)) deleted

/-- Until it is due, a scheduled cleanup is neither claimed nor changed. -/
theorem WorkerMove.scheduled {w : Nat} {before worker : Worker} {db : Database} {cid : Ident}
    {nid : NodeId} {bound : Time} (move : WorkerMove σ w action before worker db)
    (alive : σ.now ≤ bound) (waits : σ.db.Scheduled cid nid bound ∨ σ.db.phase cid ≠ some .deleted)
    (deleted : db.phase cid = some .deleted) : db.Scheduled cid nid bound := by
  have quietly : σ.db.Quiet db → db.Scheduled cid nid bound := by
    intro quiet
    rcases waits with scheduled | live
    · exact quiet.scheduled scheduled
    · exact absurd (quiet.live cid deleted) live
  cases move with
  | claim c token task next fresh =>
      rcases waits with ⟨row, stored, pending, late⟩ | live
      · obtain ⟨due, located, _, early⟩ := Database.nextTask_eq_some next
        refine ⟨row, ?_, pending, late⟩
        rw [Database.claim, Database.modifyTask, Table.get?_modify_of_ne, stored]
        rintro rfl
        obtain rfl := Option.some.inj (stored.symm.trans located)
        exact absurd (alive.trans late) (not_le.mpr early)
      · exact absurd deleted live
  | deleteBegin c job deletion db deletes begun => exact quietly (.deleteBegin begun)
  | repairBegin c job repair db repairs begun => exact quietly (.repairBegin begun)
  | repairExit c job db repairs begun => exact quietly (.repairBegin begun)
  | deleteCommit c job deletion db committed => exact quietly (.deleteCommit committed)
  | repairCommit c job repair db committed => exact quietly (.repairCommit committed)
  | fail job reason => exact quietly (.failTask job reason)
  | _ => exact quietly (.refl _)

/-- Unless a deletion finds an early cleanup, the cleanups of deleted objects
stay scheduled until the bound has passed. -/
theorem step_scheduled (reached : Reachable metadata σ)
    (stepped : metadata.step σ action = some σ') {cid : Ident} {nid : NodeId} {bound : Time}
    (alive : σ.now ≤ bound) {row : ReplicaRow} (present : σ.db.replicas.get? (cid, nid) = some row)
    (scheduled : σ.db.phase cid = some .deleted → σ.db.Scheduled cid nid bound)
    (delays : σ.db.phase cid ≠ some .deleted → σ.db.Delays cid nid bound (σ.now + action.delay))
    (deleted : σ'.db.phase cid = some .deleted) : σ'.db.Scheduled cid nid bound := by
  have consistent := (reachable_invariant reached).consistent
  have waits : σ.db.Waits cid nid bound (σ.now + action.delay) := by
    by_cases before : σ.db.phase cid = some .deleted
    · exact .inl (scheduled before)
    · exact .inr ⟨before, ⟨row, present⟩, delays before⟩
  cases happens stepped with
  | tick | beat | refuse | reject | dropBeat => exact scheduled deleted
  | request c owner command ident fresh =>
      show (σ.outcome _).Scheduled cid nid bound
      cases dispatched : σ.db.dispatch c σ.now ident owner command with
      | ok result =>
          simp only [dispatched, State.outcome] at deleted
          exact waits.dispatch consistent dispatched deleted
      | error failure =>
          simp only [dispatched, State.outcome] at deleted
          exact scheduled deleted
  | requestBy c e request ident fresh =>
      obtain ⟨focus, move⟩ := σ.keyMove consistent c e request ident
      exact waits.keyMove consistent move deleted
  | register i c beat db accepted registered =>
      exact waits.quiet (.register registered) deleted
  | confirm _ i op db move =>
      cases move with
      | commit c op bytes db present finished committed =>
          exact waits.quiet (.confirmCommit committed) deleted
      | _ => exact scheduled deleted
  | worker _ w worker db move =>
      refine move.scheduled alive ?_ deleted
      exact waits.imp_right fun later => later.1
  | maintenance _ maintenance db move =>
      generalize σ.maintenance = before at move
      cases move with
      | maintain c => exact waits.maintain consistent deleted
      | reverify view check valid left views db judged =>
          exact waits.quiet (.reverify judged) deleted
      | review c view cid' ids last more views =>
          exact waits.quiet (.reviewFile view cid') deleted
      | _ => exact scheduled deleted

theorem WorkerMove.signing {w : Nat} {before worker : Worker} {db : Database} {cid : Ident}
    (move : WorkerMove σ w action before worker db) (signing : worker.Signing cid) :
    before.Signing cid ∨ (db.phase cid = some .published ∧ σ.db.phase cid = some .published) := by
  cases move with
  | repairBegin c job repair db repairs begun =>
      obtain ⟨rfl, _⟩ := signing
      obtain ⟨chunk, upload, object, _, stored, owned, found, published, outcome⟩ :=
        Database.repairBegin_ok begun
      have phase : σ.db.phase job.task.chunk = some .published :=
        published ▸ Database.phase_of_object stored owned found
      rcases outcome with ⟨_, result, _⟩ | ⟨_, _, _, _, targeted, _, _⟩
      · cases result
      · exact .inr ⟨(targeted.sameLife.phase _).trans phase, phase⟩
  | fetched job repair source left sha known => exact .inl ⟨signing, by simp⟩
  | lost job repair source left => exact .inl ⟨signing.1, by simp⟩
  | _ => exact absurd signing (by simp [Worker.Signing])

theorem WorkerMove.removing {w : Nat} {before worker : Worker} {db : Database} {cid : Ident}
    {nid : NodeId} (move : WorkerMove σ w action before worker db)
    (removing : worker.Removing cid nid) : before.Removing cid nid ∨
      (db.phase cid = σ.db.phase cid ∧ ∃ task,
        σ.db.tasks.get? ⟨.delete, cid, some nid⟩ = some task ∧ task.state = .running) := by
  cases move with
  | deleteBegin c job deletion db deletes begun =>
      obtain ⟨rfl, rfl⟩ := removing
      obtain ⟨nid, _, ⟨row, stored, _, running, _⟩, target, _, _, rfl, rfl⟩ :=
        Database.deleteBegin_ok begun
      refine .inr ⟨SameLife.phase ⟨rfl, rfl, rfl, rfl⟩ _, row, ?_, running⟩
      rw [← stored, ← deletes, ← target]
  | _ => exact absurd removing (by simp [Worker.Removing])

theorem WorkerMove.target {w : Nat} {before worker : Worker} {db : Database} {job : Job}
    {repair : Repair} (move : WorkerMove σ w action before worker db)
    (repairs : worker.repair? = some (job, repair)) : before.repair? = some (job, repair) ∨
      ∃ row, db.replicas.get? (job.task.chunk, repair.target) = some row := by
  cases move with
  | repairBegin c job repair db kind begun =>
      cases repairs
      obtain ⟨_, _, _, _, _, _, _, _, outcome⟩ := Database.repairBegin_ok begun
      rcases outcome with ⟨_, result, _⟩ | ⟨_, _, target, node, targeted, _, result⟩
      · cases result
      · cases result
        right
        rcases targeted.choice with ⟨row, stored, _, rfl⟩ | ⟨_, _, _, _, _, rfl⟩
        · exact ⟨row, stored⟩
        · simp only [Database.reserveOn, Table.get?_upsert, if_true]
          exact ⟨_, rfl⟩
  | fetched | lost | sendPut | putDone | sendStat | statDone => exact .inl repairs
  | _ => simp [Worker.repair?] at repairs

theorem now_le (stepped : metadata.step σ action = some σ') : σ.now ≤ σ'.now := by
  cases happens stepped with
  | tick elapsed => exact Int.le_add_of_nonneg_right (Int.natCast_nonneg elapsed)
  | _ => exact le_refl _

theorem Signs.quiet {ticket : Ticket} (signs : Signs σ action ticket)
    (stepped : metadata.step σ action = some σ') : σ.db.Quiet σ'.db := by
  cases signs with
  | prepare c owner upload seq ident row object cid chunk sha ticket known active opened selected
      compatible signed =>
      have taken : σ.step (.request c owner (.prepare upload seq (some sha)) ident) = some σ' :=
        stepped
      simp only [State.step] at taken
      split at taken
      · cases taken
        show σ.db.Quiet (σ.outcome _)
        cases dispatched : σ.db.dispatch c σ.now ident owner (.prepare upload seq (some sha)) with
        | ok result =>
            simp only [Database.dispatch, bind_eq_ok] at dispatched
            obtain ⟨_, _, dispatched⟩ := dispatched
            obtain ⟨_, _, _, _, _, _, _, _, _, _, _, _, _, _, _, result, _⟩ :=
              Database.prepare_ok dispatched
            simp only [State.outcome, result]
            exact .modifyChunk _ _ fun _ => rfl
        | error failure => exact .refl _
      · cases taken
  | prepareBy c e request ident sel row object position sha cid chunk ticket prepares =>
      have taken : σ.step (.requestBy c e request ident) = some σ' := stepped
      simp only [State.step] at taken
      split at taken
      · cases taken
        show σ.db.Quiet (σ.outcome _)
        cases dispatched : σ.db.dispatchBy e.toEngine c σ.now ident request with
        | ok result =>
            simp only [Database.dispatchBy, prepares, bind_eq_ok] at dispatched
            obtain ⟨_, _, sel, _, prepared⟩ := dispatched
            obtain ⟨_, _, _, _, _, _, _, _, _, _, result⟩ := Database.prepareBy_ok prepared
            simp only [State.outcome, result]
            exact .modifyChunk _ _ fun _ => rfl
        | error failure => exact .refl _
      · cases taken
  | confirm i c upload owner seq row object cid chunk sha ticket absent active selected fixed
      signed =>
      have taken : σ.confirmStep (.confirm i c upload owner seq) = some σ' := stepped
      obtain ⟨j, op, db, move, rfl⟩ := State.confirmStep_cases taken
      cases move <;> exact .refl _
  | confirmCommit i c op row object ticket present finished sound active signed =>
      have taken : σ.confirmStep (.confirmCommit i c) = some σ' := stepped
      obtain ⟨j, op, db, move, rfl⟩ := State.confirmStep_cases taken
      cases move with
      | commit c op bytes db present finished committed => exact .confirmCommit committed
      | abort c op present => exact .refl _
  | repair w c job repair sha fetched =>
      have taken : σ.workerStep (.sendPut w c) = some σ' := stepped
      obtain ⟨v, worker, db, move, rfl⟩ := State.workerStep_cases taken
      generalize σ.workers v = before at move
      cases move
      exact .refl _

end Steps

/-- What is known of the authorizations signed in an orderly run. -/
structure Deferred (history : List (Event State Action)) (σ : State) : Prop where
  targets : ∀ w job repair, (σ.workers w).repair? = some (job, repair) →
    ∃ row, σ.db.replicas.get? (job.task.chunk, repair.target) = some row
  stored : ∀ ticket, Signed history ticket →
    ∃ row, σ.db.replicas.get? (ticket.chunk, ticket.node) = some row
  unsigned : ∀ w cid, σ.db.phase cid = some .deleted → ¬(σ.workers w).Signing cid
  waiting : ∀ ticket, Signed history ticket → σ.db.phase ticket.chunk = some .deleted →
    σ.now ≤ ticket.expires → (∀ w, ¬(σ.workers w).Removing ticket.chunk ticket.node) ∧
      σ.db.Scheduled ticket.chunk ticket.node ticket.expires

section Runs

variable {history : List (Event State Action)} {σ σ' : State} {action : Action}

theorem Deferred.initial : Deferred [] State.initial where
  targets := by simp [State.initial, Worker.repair?]
  stored := by simp [Signed]
  unsigned := by simp [State.initial, Worker.Signing]
  waiting := by simp [Signed]

theorem Signs.live {ticket : Ticket} (signs : Signs σ action ticket) (reached : Reachable metadata σ)
    (deferred : Deferred history σ) : σ.db.phase ticket.chunk ≠ some .deleted ∧
      ∃ row, σ.db.replicas.get? (ticket.chunk, ticket.node) = some row := by
  have invariant := reachable_invariant reached
  have placed : ∀ {c cid upload length sha}, ticket ∈ σ.db.signed c σ.now cid upload length sha →
      ticket.chunk = cid ∧ ∃ row, σ.db.replicas.get? (ticket.chunk, ticket.node) = some row := by
    intro c cid upload length sha signed
    obtain ⟨⟨nid, row, node⟩, listed, rfl⟩ := List.mem_map.mp signed
    exact ⟨rfl, row, (σ.db.mem_writable.mp ((List.takeWhile_prefix _).subset listed)).1⟩
  cases signs with
  | prepare c owner upload seq ident row object cid chunk sha ticket known active opened selected
      compatible signed =>
      obtain ⟨stored, found, _, _, _⟩ := Database.active_ok.mp active
      obtain ⟨located, rfl, _⟩ := σ.db.chunkAt_eq_some selected
      obtain ⟨rfl, present⟩ := placed signed
      refine ⟨?_, present⟩
      rw [Database.phase_of_object located stored found,
        (invariant.consistent.linked.paired _ row object stored found).uploading_iff.mp opened.1]
      simp
  | prepareBy c e request ident sel row object position sha cid chunk ticket prepares known selects
      active opened sequence given selected compatible signed =>
      obtain ⟨⟨nid, row, node⟩, listed, rfl⟩ := List.mem_map.mp signed
      obtain ⟨stored, _, _, live⟩ := σ.db.mem_writable.mp ((List.takeWhile_prefix _).subset listed)
      refine ⟨fun deleted => ?_, row, stored⟩
      rcases invariant.consistent.ended cid nid row deleted stored with ended | ended <;>
        simp [ended] at live
  | confirm i c upload owner seq row object cid chunk sha ticket absent active selected fixed
      signed =>
      obtain ⟨stored, found, _, live, _⟩ := Database.active_ok.mp active
      obtain ⟨located, rfl, _⟩ := σ.db.chunkAt_eq_some selected
      obtain ⟨rfl, present⟩ := placed signed
      refine ⟨?_, present⟩
      rw [Database.phase_of_object located stored found]
      simpa using live rfl
  | confirmCommit i c op row object ticket present finished sound active signed =>
      obtain ⟨stored, found, _, live, _⟩ := Database.active_ok.mp active
      obtain ⟨chunk, located, owned, _⟩ := (invariant.confirms i op present).chunk
      obtain ⟨same, row'⟩ := placed signed
      refine ⟨?_, row'⟩
      rw [same, Database.phase_of_object located (owned ▸ stored) found]
      simpa using live rfl
  | repair w c job repair sha fetched =>
      refine ⟨fun deleted => deferred.unsigned w _ deleted ?_,
        deferred.targets w job repair (by rw [fetched]; rfl)⟩
      rw [fetched]
      rfl

theorem Deferred.step (deferred : Deferred history σ) (reached : Reachable metadata σ)
    (stepped : metadata.step σ action = some σ')
    (orderly : ¬Overtakes history ⟨σ, action, σ'⟩) :
    Deferred (⟨σ, action, σ'⟩ :: history) σ' := by
  obtain ⟨_, _, drawn, _, effect⟩ := reachable_effect reached stepped
  have grown := effect.steps.grown
  have persists : ∀ {cid nid}, (∃ row, σ.db.replicas.get? (cid, nid) = some row) →
      ∃ row, σ'.db.replicas.get? (cid, nid) = some row := by
    rintro cid nid ⟨row, stored⟩
    exact grown.replicas cid nid row stored
  have known : ∀ ticket, Signed (⟨σ, action, σ'⟩ :: history) ticket →
      (∃ row, σ.db.replicas.get? (ticket.chunk, ticket.node) = some row) ∧
        (Signed history ticket ∨ σ.db.phase ticket.chunk ≠ some .deleted) := by
    rintro ticket ⟨event, membership, signs⟩
    rcases List.mem_cons.mp membership with rfl | older
    · exact ⟨(signs.live reached deferred).2, .inr (signs.live reached deferred).1⟩
    · exact ⟨deferred.stored ticket ⟨event, older, signs⟩, .inl ⟨event, older, signs⟩⟩
  refine ⟨?_, fun ticket signed => persists (known ticket signed).1, ?_, ?_⟩
  · intro w job repair repairs
    rcases (happens stepped).workers w with same | move
    · exact persists (deferred.targets w job repair (same ▸ repairs))
    · rcases move.target repairs with before | row
      · exact persists (deferred.targets w job repair before)
      · exact row
  · intro w cid deleted signing
    have before : (σ.workers w).Signing cid := by
      rcases (happens stepped).workers w with same | move
      · exact same ▸ signing
      · rcases move.signing signing with before | ⟨published, _⟩
        · exact before
        · simp [deleted] at published
    by_cases already : σ.db.phase cid = some .deleted
    · exact deferred.unsigned w cid already before
    · exact orderly (.repair cid w already deleted before)
  · intro ticket signed deleted alive
    have earlier : σ.now ≤ ticket.expires := (now_le stepped).trans alive
    have past : Signed history ticket := by
      obtain ⟨event, membership, signs⟩ := signed
      rcases List.mem_cons.mp membership with rfl | older
      · exact absurd ((signs.quiet stepped).live _ deleted) (signs.live reached deferred).1
      · exact ⟨event, older, signs⟩
    refine ⟨fun w removing => ?_, ?_⟩
    · have before := ((happens stepped).workers w).elim
        (fun same => Or.inl (same ▸ removing)) fun move => move.removing removing
      by_cases already : σ.db.phase ticket.chunk = some .deleted
      · obtain ⟨idle, task, stored, pending, _⟩ := deferred.waiting ticket past already earlier
        rcases before with removing | ⟨_, task', stored', running⟩
        · exact idle w removing
        · obtain rfl := Option.some.inj (stored.symm.trans stored')
          simp [running] at pending
      · rcases before with removing | ⟨same, _⟩
        · exact orderly (.thread ticket w already deleted past earlier removing)
        · exact already (same ▸ deleted)
    · obtain ⟨row, present⟩ := deferred.stored ticket past
      refine step_scheduled reached stepped earlier present
        (fun already => (deferred.waiting ticket past already earlier).2) (fun live => ?_) deleted
      by_contra early
      exact orderly (.task ticket live deleted past earlier early)

theorem run_deferred (run : Run metadata history σ) (orderly : Orderly history) :
    Deferred history σ := by
  induction run with
  | start => exact .initial
  | next earlier stepped inductionHypothesis =>
      exact (inductionHypothesis orderly.2).step earlier.reachable stepped orderly.1

/-- In an orderly run nothing is signed for a deleted object, and its copies
are removed only when every authorization signed for them has expired. -/
theorem removals_deferred (run : Run metadata history σ) (orderly : Orderly history)
    {later earlier : List (Event State Action)} {event : Event State Action}
    (split : history = later ++ event :: earlier) :
    (∀ ticket, Signs event.before event.action ticket →
      event.before.db.phase ticket.chunk ≠ some .deleted) ∧
    ∀ w job deletion, event.action = .sendRemove w →
      event.before.workers w = .removing job deletion →
      event.before.db.phase job.task.chunk = some .deleted →
      ∀ ticket, Signed earlier ticket → ticket.chunk = job.task.chunk →
        ticket.node = deletion.node → ticket.expires < event.before.now := by
  induction run generalizing later with
  | start => simp at split
  | next before stepped inductionHypothesis =>
      cases later with
      | cons first rest =>
          obtain ⟨rfl, older⟩ := List.cons.inj split
          exact inductionHypothesis orderly.2 older
      | nil =>
          obtain ⟨rfl, rfl⟩ := List.cons.inj split
          have deferred := run_deferred before orderly.2
          refine ⟨fun ticket signs => (signs.live before.reachable deferred).1, ?_⟩
          intro w job deletion sends removing deleted ticket signed chunk node
          by_contra alive
          refine (deferred.waiting ticket signed (chunk ▸ deleted) (not_lt.mp alive)).1 w ?_
          show (State.workers _ w).Removing ticket.chunk ticket.node
          rw [removing, chunk, node]
          exact ⟨rfl, rfl⟩

theorem orderly_of_undeleted (undeleted : ∀ event ∈ history,
    ∀ entry ∈ event.after.db.objects.rows, entry.2.state ≠ .deleted) : Orderly history := by
  induction history with
  | nil => exact trivial
  | cons event earlier inductionHypothesis =>
      refine ⟨fun overtakes => ?_, inductionHypothesis fun other membership =>
        undeleted other (List.mem_cons_of_mem _ membership)⟩
      have alive : ∀ cid, event.after.db.phase cid ≠ some .deleted := by
        intro cid deleted
        obtain ⟨_, row, object, _, _, found, state⟩ := Database.phase_eq_some.mp deleted
        exact undeleted event List.mem_cons_self (row.object, object)
          (event.after.db.objects.mem_rows_iff.mpr found) state
      cases overtakes with
      | repair cid w before after signing => exact alive cid after
      | thread ticket w before after signed live removing => exact alive _ after
      | task ticket before after signed live early => exact alive _ after

end Runs

/-- An object of one chunk has been initialized. -/
def preparing : State :=
  (metadata.execute metadata.initial (uploadActions.take 7)).get (by decide +kernel)

/-- The authorization for its first node is signed while the object is staging. -/
theorem removals_deferred_prepared : ∃ ticket,
    Signs preparing (.request installation "owner" (.prepare 1001 0 (some 7)) id) ticket ∧
      ticket.node = 1 ∧ preparing.db.phase ticket.chunk ≠ some .deleted := by
  have run : Run metadata (metadata.events metadata.initial (uploadActions.take 7)) preparing :=
    metadata.run (uploadActions.take 7) _
  have stepped := (Option.some_get (show (metadata.step preparing
    (.request installation "owner" (.prepare 1001 0 (some 7)) id)).isSome by decide +kernel)).symm
  have last : ∀ entry ∈ ((metadata.step preparing (.request installation "owner"
      (.prepare 1001 0 (some 7)) id)).get (by decide +kernel)).db.objects.rows,
      entry.2.state ≠ .deleted := by decide +kernel
  have before : ∀ event ∈ metadata.events metadata.initial (uploadActions.take 7),
      ∀ entry ∈ event.after.db.objects.rows, entry.2.state ≠ .deleted := by decide +kernel
  have stored : preparing.db.uploads.get? 1001 = some ⟨1000, .uploading, 1000⟩ := by decide +kernel
  have found : preparing.db.objects.get? 1000 = some ⟨"owner", "file", 1, 4, 2, .staging⟩ := by
    decide +kernel
  have signs : Signs preparing (.request installation "owner" (.prepare 1001 0 (some 7)) id)
      ⟨some (.ident 1001), 1002, 1, 7, 1, 201, 101, 2⟩ := by
    refine .prepare installation "owner" 1001 0 id _ _ 1002 ⟨1001, 0, 1, none, .pending⟩ 7 _
      (by decide) (Database.active_ok.mpr ⟨stored, found, by simp, by simp, by simp⟩)
      ⟨rfl, by decide +kernel⟩ (by decide +kernel) (.inl rfl) (by decide +kernel)
  refine ⟨_, signs, rfl, ?_⟩
  exact (removals_deferred (run.next stepped)
    (orderly_of_undeleted (List.forall_mem_cons.mpr ⟨last, before⟩)) (List.nil_append _).symm).1 _
      signs

/-- A repair has fetched its chunk when the object is deleted. -/
def overtakenActions : List Action :=
  repairActions ++ [.fetch 0 true, .request installation "owner" (.delete 1000) id]

def overtaken : State :=
  (metadata.execute metadata.initial overtakenActions).get (by decide +kernel)

/-- It signs its authorization all the same. -/
theorem removals_overtaken : ¬∀ history σ, Run metadata history σ →
    ∀ later event earlier, history = later ++ event :: earlier →
      (∀ ticket, Signs event.before event.action ticket →
        event.before.db.phase ticket.chunk ≠ some .deleted) ∧
      ∀ w job deletion, event.action = .sendRemove w →
        event.before.workers w = .removing job deletion →
        event.before.db.phase job.task.chunk = some .deleted →
        ∀ ticket, Signed earlier ticket → ticket.chunk = job.task.chunk →
          ticket.node = deletion.node → ticket.expires < event.before.now := by
  intro deferred
  have run : Run metadata _ overtaken := metadata.run overtakenActions _
  have fetched : overtaken.workers 0 = .fetched ⟨⟨.repair, 1002, none⟩, 5000⟩
      ⟨1, some 7, 1001, 1000, 2, [⟨2, "second:9000", 202, 102⟩], 3, "third:9000", 203, 103⟩ 7 := by
    decide +kernel
  have deleted : overtaken.db.phase 1002 = some .deleted := by decide +kernel
  have stepped : ∃ σ, metadata.step overtaken (.sendPut 0 installation) = some σ := by
    simp only [metadata, State.step, State.workerStep, fetched]
    exact ⟨_, rfl⟩
  obtain ⟨σ, stepped⟩ := stepped
  exact (deferred _ _ (run.next stepped) [] _ _ rfl).1 _ (.repair 0 installation _ _ _ fetched) deleted

end FileServer.Metadata
