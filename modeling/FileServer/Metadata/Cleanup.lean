import FileServer.Metadata.Invariant

/-!
# Tasks that own what is left to do

A row that awaits its cleanup has an outstanding task.  A reservation of a
repair has one as well, unless the repair ends early while it is held.
-/

namespace FileServer.Metadata

open FileServer.Relational FileServer.Transition

/-- No cleanup is lost. -/
theorem cleanup_outstanding {σ : State} (reached : Reachable metadata σ) {cid : Ident}
    {nid : NodeId} {row : ReplicaRow} (stored : σ.db.replicas.get? (cid, nid) = some row) :
    (σ.db.phase cid = some .deleted →
      (row.state = .gone ∧ row.charged = .none) ∨
        (row.state = .deleting ∧ σ.db.Outstanding ⟨.delete, cid, some nid⟩)) ∧
    (row.state = .deleting → σ.db.Outstanding ⟨.delete, cid, some nid⟩) := by
  have consistent := (reachable_invariant reached).consistent
  refine ⟨fun deleted => ?_, consistent.cleaned cid nid row stored⟩
  rcases consistent.ended cid nid row deleted stored with deleting | gone
  · exact .inr ⟨deleting, consistent.cleaned cid nid row stored deleting⟩
  · exact .inl ⟨gone, consistent.goneUncharged cid nid row stored gone⟩

/-- Deletion leaves a task for each copy. -/
theorem cleanup_outstanding_deleted : ∃ (σ : State) (row : ReplicaRow), Reachable metadata σ ∧
    σ.db.replicas.get? (1002, 1) = some row ∧ row.state = .deleting ∧
      σ.db.Outstanding ⟨.delete, 1002, some 1⟩ := by
  have run := metadata.run
    (uploadActions ++ [.request installation "owner" (.delete 1000) id]) (by decide +kernel)
  have stored : ((metadata.execute metadata.initial
      (uploadActions ++ [.request installation "owner" (.delete 1000) id])).get
        (by decide +kernel)).db.replicas.get? (1002, 1) = some ⟨201, .deleting, .used⟩ := by
    decide +kernel
  exact ⟨_, _, run.reachable, stored, rfl, (cleanup_outstanding run.reachable stored).2 rfl⟩

/-- The reservations of repairs are owned by outstanding repairs. -/
def Database.Owned (db : Database) : Prop :=
  ∀ cid nid row, db.phase cid = some .published → db.replicas.get? (cid, nid) = some row →
    row.state = .reserved → db.Outstanding ⟨.repair, cid, none⟩

section Moves

variable {focus : Focus} {drawn : List Ident} {db db' : Database}

/-- Only the early exit of a repair lets go of a reservation. -/
theorem Moves.owned (moves : Moves focus drawn db db') (consistent : Consistent db)
    (copies : ∀ task, focus ≠ .exit task) (owned : db.Owned) : db'.Owned := by
  intro cid nid row published stored reserved
  rcases moves.reservedOrigin published stored reserved with
    ⟨old, before, oldReserved⟩ | ⟨_, _, outstanding⟩
  · refine moves.outstanding (owned cid nid old
      (moves.publishedBefore consistent published before oldReserved) before oldReserved) ?_
    intro task after move done
    obtain ⟨earlier, located, active⟩ := owned cid nid old
      (moves.publishedBefore consistent published before oldReserved) before oldReserved
    rw [located] at move
    cases move with
    | keep => exact active done
    | enqueue _ _ free pending => simp [pending] at done
    | claim _ _ owner due running => simp [running] at done
    | fail _ _ running pending => simp [pending] at done
    | finish _ _ finished cleaned repaired =>
        rcases repaired rfl with exit | deleted | settled
        · exact copies _ exit
        · simp [published] at deleted
        · exact settled nid row stored reserved
  · exact outstanding

theorem Steps.owned (steps : Steps focus drawn db db') (consistent : Consistent db)
    (copies : ∀ task, focus ≠ .exit task) (owned : db.Owned) : db'.Owned := by
  induction steps with
  | refl => exact owned
  | tail earlier moves inductionHypothesis =>
      exact moves.owned (Steps.consistent earlier consistent) copies inductionHypothesis

end Moves

/-- A repair finds enough healthy copies and ends while a row of its chunk is
reserved. -/
def Abandons (event : Event State Action) : Prop :=
  ∃ w c job chunk upload oid object nid row, event.action = .begin w c ∧
    event.before.workers w = .claimed job ∧ job.task.kind = .repair ∧
    event.before.db.Fence event.before.now job ∧
    event.before.db.chunkObject job.task.chunk = some (chunk, upload, oid, object) ∧
    object.state = .published ∧
    object.replicas ≤
      (Database.healthy c event.before.now event.before.db job.task.chunk).length ∧
    event.before.db.replicas.get? (job.task.chunk, nid) = some row ∧ row.state = .reserved

theorem step_owned {σ σ' : State} {action : Action} (reached : Reachable metadata σ)
    (stepped : metadata.step σ action = some σ') (kept : ¬Abandons ⟨σ, action, σ'⟩)
    (owned : σ.db.Owned) : σ'.db.Owned := by
  have invariant := reachable_invariant reached
  obtain ⟨focus, focuses, drawn, _, effect⟩ := reachable_effect reached stepped
  by_cases copies : ∀ task, focus ≠ .exit task
  · exact effect.steps.owned invariant.consistent copies owned
  simp only [not_forall, not_not] at copies
  obtain ⟨task, rfl⟩ := copies
  cases focuses with
  | request c owner command ident focus focused => cases focused
  | requestBy _ _ _ _ _ move =>
      cases move with
      | command _ _ _ _ _ focused => cases focused
  | exit w c job db claimed repairs exited =>
      obtain ⟨chunk, upload, object, fenced, present, belongs, located, published, outcome⟩ :=
        Database.repairBegin_ok exited
      rcases outcome with ⟨enough, _, rfl⟩ | ⟨_, _, _, _, _, _, result⟩
      · have result : σ'.db = σ.db.finishTask job := by
          have taken : σ.step (.begin w c) = some σ' := stepped
          simp only [State.step, State.workerStep, claimed, State.beginJob, repairs, exited,
            Option.some.injEq] at taken
          exact taken ▸ rfl
        rw [result]
        intro cid nid row live stored reserved
        have other : (⟨.repair, cid, none⟩ : TaskKey) ≠ job.task := by
          intro same
          refine kept ⟨w, c, job, chunk, upload, _, object, nid, row, rfl, claimed, repairs, fenced,
            σ.db.chunkObject_eq_some.mpr ⟨present, belongs, rfl, located⟩, published, enough, ?_,
            reserved⟩
          rw [← same]
          exact stored
        obtain ⟨task, enqueued, active⟩ := owned cid nid row live stored reserved
        exact ⟨task, by rw [Database.finishTask, Database.modifyTask,
          Table.get?_modify_of_ne _ _ other, enqueued], active⟩
      · cases result

/-- As long as no repair ends early over a reservation, every reservation of a
published chunk has an outstanding repair. -/
theorem reservations_owned {history : List (Event State Action)} {σ : State}
    (run : Run metadata history σ) (kept : ∀ event ∈ history, ¬Abandons event) {cid : Ident}
    (published : σ.db.phase cid = some .published)
    (finished : ∀ task row, σ.db.tasks.get? task = some row → task.kind = .repair →
      task.chunk = cid → row.state = .done) :
    ∀ nid row, σ.db.replicas.get? (cid, nid) = some row → row.state ≠ .reserved := by
  have owned : Reachable metadata σ ∧ σ.db.Owned := by
    refine run.invariantUnder (fun σ => Reachable metadata σ ∧ σ.db.Owned)
      (fun event => ¬Abandons event) ⟨Run.start.reachable, ?_⟩ ?_ kept
    · intro cid nid row live stored
      simp [metadata, State.initial, Database.empty] at stored
    · rintro before action after ⟨reached, owned⟩ unabandoned stepped
      exact ⟨reached.next stepped, step_owned reached stepped unabandoned owned⟩
  intro nid row stored reserved
  obtain ⟨task, enqueued, active⟩ := owned.2 cid nid row published stored reserved
  exact active (finished _ task enqueued rfl rfl)

/-- A repair that copies and publishes leaves nothing reserved. -/
theorem reservations_owned_repaired : ∃ (σ : State) (row : ReplicaRow), Reachable metadata σ ∧
    σ.db.replicas.get? (1002, 3) = some row ∧ row.state = .valid ∧ row.state ≠ .reserved := by
  let actions := repairActions ++ [.fetch 0 true, .sendPut 0 installation, .putDone 0, .sendStat 0,
    .statDone 0, .commit 0 installation]
  have run := metadata.run actions (by decide +kernel)
  have published : ((metadata.execute metadata.initial actions).get
      (by decide +kernel)).db.phase 1002 = some .published := by decide +kernel
  have finished : ∀ entry ∈ ((metadata.execute metadata.initial actions).get
      (by decide +kernel)).db.tasks.rows, entry.2.state = .done := by decide +kernel
  have stored : ((metadata.execute metadata.initial actions).get
      (by decide +kernel)).db.replicas.get? (1002, 3) = some ⟨203, .valid, .used⟩ := by
    decide +kernel
  have unreserved : ∀ event ∈ metadata.events metadata.initial actions,
      (match event.action with | .begin .. => true | _ => false) = true →
        ∀ entry ∈ event.before.db.replicas.rows, entry.2.state ≠ .reserved := by decide +kernel
  refine ⟨_, _, run.reachable, stored, rfl, reservations_owned run ?_ published ?_ 3 _ stored⟩
  · rintro event membership ⟨w, c, job, _, _, _, _, nid, row, begun, _, _, _, _, _, _, held, reserved⟩
    exact unreserved event membership (by rw [begun]) _ (Table.mem_rows_iff _ |>.mpr held) reserved
  · intro task row enqueued _ _
    exact finished _ (Table.mem_rows_iff _ |>.mpr enqueued)

/-- The first node comes back before a failed repair is tried again, so the
second attempt ends at once and its task is done; the reservation stays. -/
theorem reservations_leak : ¬∀ σ, Reachable metadata σ → ∀ cid,
    σ.db.phase cid = some .published →
    (∀ task row, σ.db.tasks.get? task = some row → task.kind = .repair → task.chunk = cid →
      row.state = .done) →
    ∀ nid row, σ.db.replicas.get? (cid, nid) = some row → row.state ≠ .reserved := by
  let actions := repairActions ++ [.raise 0 "timed out", .fail 0] ++ heartbeatActions 1 ++
    [.tick 3, .claim 0 installation 5001] ++ heartbeatActions 1 ++ heartbeatActions 2 ++
    [.begin 0 installation]
  intro owned
  have run := metadata.run actions (by decide +kernel)
  have published : ((metadata.execute metadata.initial actions).get
      (by decide +kernel)).db.phase 1002 = some .published := by decide +kernel
  have finished : ∀ entry ∈ ((metadata.execute metadata.initial actions).get
      (by decide +kernel)).db.tasks.rows, entry.2.state = .done := by decide +kernel
  have stored : ((metadata.execute metadata.initial actions).get
      (by decide +kernel)).db.replicas.get? (1002, 3) = some ⟨203, .reserved, .reserved⟩ := by
    decide +kernel
  refine owned _ run.reachable 1002 published ?_ 3 _ stored rfl
  intro task row enqueued _ _
  exact finished _ (Table.mem_rows_iff _ |>.mpr enqueued)

end FileServer.Metadata
