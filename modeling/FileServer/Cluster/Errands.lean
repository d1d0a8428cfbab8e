import FileServer.Cluster.Passes
import FileServer.Metadata.Dues
import FileServer.Metadata.Copies
import Mathlib.Data.Fintype.EquivFin

/-!
# Other jobs of the task thread

The task thread ends every job it takes.  None of them is due again soon, so
that a task that waits comes to be next in line.
-/

namespace FileServer.Cluster

open FileServer.Metadata FileServer.Relational FileServer.Storage FileServer.Transition

/-- What a job leaves of the others: the task of the key, no more that are due,
and the maintenance thread. -/
structure Errand (key : TaskKey) (limit : Time) (σ σ' : Upkeep) : Prop where
  postponed : Database.Postponed key limit σ.deployment.core.db σ'.deployment.core.db
  later : σ.deployment.core.now ≤ σ'.deployment.core.now
  maintenance : σ'.deployment.core.maintenance = σ.deployment.core.maintenance

section Jobs

variable {s : Site} {c : Config} {w : Nat} {key : TaskKey} {limit : Time} {σ : Upkeep}

theorem Errand.refl (σ : Upkeep) : Errand key limit σ σ := ⟨.of_tasks rfl, le_rfl, rfl⟩

theorem Errand.trans {σ σ' σ'' : Upkeep} (earlier : Errand key limit σ σ')
    (later : Errand key limit σ' σ'') : Errand key limit σ σ'' :=
  ⟨earlier.postponed.trans later.postponed, le_trans earlier.later later.later,
    later.maintenance.trans earlier.maintenance⟩

def Comes (s : Site) (c : Config) (w : Nat) (key : TaskKey) (limit : Time) (σ : Upkeep)
    (goal : Upkeep → Prop) : Prop :=
  ∃ σ', Upkeep.Leads s c w σ σ' ∧ Errand key limit σ σ' ∧ goal σ'

theorem Comes.here {goal : Upkeep → Prop} (holds : goal σ) : Comes s c w key limit σ goal :=
  ⟨σ, .refl, .refl σ, holds⟩

theorem Comes.next {σ' : Upkeep} {goal : Upkeep → Prop} (leads : Upkeep.Leads s c w σ σ')
    (errand : Errand key limit σ σ') (later : Comes s c w key limit σ' goal) :
    Comes s c w key limit σ goal := by
  obtain ⟨last, more, still, holds⟩ := later
  exact ⟨last, leads.trans more, errand.trans still, holds⟩

structure Serving (s : Site) (c : Config) (key : TaskKey) (limit : Time) (σ : Upkeep) : Prop where
  attended : Attended s c σ.deployment
  waits : ∃ row, σ.deployment.core.db.tasks.get? key = some row ∧ row.state ≠ .done
  late : limit < σ.deployment.core.now

theorem Serving.next (serving : Serving s c key limit σ) {σ' : Upkeep}
    (leads : Upkeep.Leads s c w σ σ') (errand : Errand key limit σ σ') :
    Serving s c key limit σ' :=
  ⟨leads.attended serving.attended, errand.postponed.task ▸ serving.waits,
    lt_of_lt_of_le serving.late errand.later⟩

theorem Comes.then {goal goal' : Upkeep → Prop} (first : Comes s c w key limit σ goal)
    (serving : Serving s c key limit σ)
    (later : ∀ σ', Serving s c key limit σ' → goal σ' → Comes s c w key limit σ' goal') :
    Comes s c w key limit σ goal' := by
  obtain ⟨σ', leads, errand, holds⟩ := first
  exact .next leads errand (later σ' (serving.next leads errand) holds)

theorem worker_acts (serving : Serving s c key limit σ) (chore : Chore)
    {action : Action} {before after : Worker} {db : Database}
    (moves : WorkerMove σ.deployment.core w action before after db)
    (move : chore.move c w = .metadata action) (permits : σ.Permits s c w chore)
    (allowed : σ.deployment.Allows s action)
    (stepped : Metadata.metadata.step σ.deployment.core action =
      some (State.setWorker { σ.deployment.core with db } w after))
    (other : ∀ job, before.job? = some job → key ≠ job.task)
    (claimless : ∀ c token, action ≠ .claim w c token) :
    Comes s c w key limit σ fun σ' => σ'.deployment.core.workers w = after := by
  have leads := leads_act move permits allowed stepped
  obtain ⟨same, _⟩ := σ.deployment.follow_frame s action
    (State.setWorker { σ.deployment.core with db } w after)
  refine ⟨_, leads, ⟨?_, ?_, ?_⟩, ?_⟩
  · rw [same]
    exact moves.postponed serving.waits other claimless serving.late
  · rw [same]
    exact le_rfl
  · rw [same]
    rfl
  · dsimp only
    rw [same]
    exact Function.update_self _ _ _

theorem comes_failed (serving : Serving s c key limit σ) {job : Job}
    {reason : String} (here : σ.deployment.core.workers w = .failing job reason)
    (other : key ≠ job.task) :
    Comes s c w key limit σ fun σ' => σ'.deployment.core.workers w = .idle :=
  worker_acts serving .fail (.fail job reason) rfl trivial trivial
    (by simp only [Metadata.metadata, State.step, State.workerStep, here])
    (by rintro _ ⟨⟩; exact other) (by simp)

/-- The request that a job waits for is answered. -/
theorem comes_answered (serving : Serving s c key limit σ) {remote : Remote}
    (awaits : σ.deployment.awaited (.worker w) = some remote) :
    Comes s c w key limit σ fun σ' => σ'.deployment.core = σ.deployment.core ∧
      ∃ answer, σ'.deployment.calls (.worker w) = some ⟨remote, some answer⟩ := by
  obtain ⟨answer, call⟩ := reachable_dialed serving.attended.reached _ _ awaits
  cases answer with
  | some answer => exact .here ⟨rfl, answer, call⟩
  | none =>
      have awaited : (σ.deployment.awaited (.worker w)).isSome = true := by rw [awaits]; rfl
      obtain ⟨σ', leads, same, _, answered, _⟩ := leads_deliver (s := s) (c := c) (w := w)
        (show Chore.move c w .deliver = _ from rfl) awaited (by simp) call
      exact ⟨σ', leads, ⟨.of_tasks (by rw [same]), by rw [same], by rw [same]⟩, same, _, answered⟩

theorem comes_refused (serving : Serving s c key limit σ) {worker : Worker}
    {job : Job} {remote : Remote} (here : σ.deployment.core.workers w = worker)
    (working : worker.job? = some job) (active : ∀ job reason, worker ≠ .failing job reason)
    (awaited : (σ.deployment.awaited (.worker w)).isSome = true)
    (refused : σ.deployment.calls (.worker w) = some ⟨remote, some false⟩)
    (other : key ≠ job.task) :
    Comes s c w key limit σ fun σ' => σ'.deployment.core.workers w = .idle := by
  have stepped : Metadata.metadata.step σ.deployment.core (.raise w "") =
      some (State.setWorker σ.deployment.core w (.failing job ("".take 255).toString)) := by
    simp only [Metadata.metadata, State.step, State.workerStep, here, working]
  refine (worker_acts serving (.raise "") (.raise worker job "" _ working) rfl
    (.inr ⟨awaited, _, refused, rfl⟩) trivial stepped ?_ (by simp)).then serving ?_
  · intro job' same
    obtain rfl := Option.some.inj (working.symm.trans same)
    exact other
  · intro σ' later failing
    exact comes_failed later failing other

theorem fetched_hashed {job : Job} {repair : Repair} {left : List Source} {content : Bytes}
    (here : σ.deployment.core.workers w = .fetching job repair left)
    (read : σ.deployment.fetched s w = some content) : ∃ sha, repair.sha = some sha := by
  simp only [Deployment.fetched, here] at read
  cases left with
  | nil => cases read
  | cons source left =>
      obtain ⟨node, _, succeeded⟩ := Option.bind_eq_some_iff.mp read
      cases result : Node.read s.digest (node.files.get? job.task.chunk) repair.length repair.sha with
      | error failure => simp [result, Except.toOption] at succeeded
      | ok bytes => exact ⟨_, ((Node.read_eq_ok s.digest).mp result).2.2.2⟩

section Others

variable (serving : Serving s c key limit σ) {job : Job} (other : key ≠ job.task)
include serving other

theorem comes_removed {deletion : Deletion}
    (here : σ.deployment.core.workers w = .removed job deletion) :
    Comes s c w key limit σ fun σ' => σ'.deployment.core.workers w = .idle := by
  have alone : ∀ job', (Worker.removed job deletion).job? = some job' → key ≠ job'.task := by
    rintro _ ⟨⟩
    exact other
  cases committed : σ.deployment.core.db.deleteCommit σ.deployment.core.now job deletion with
  | ok db =>
      exact worker_acts serving .commit (.deleteCommit c job deletion db committed) rfl trivial
        trivial (by simp only [Metadata.metadata, State.step, State.workerStep, State.commitJob,
          here, committed]) alone (by simp)
  | error failure =>
      exact (worker_acts serving .commit (.abort c _ job failure.message rfl) rfl trivial trivial
        (by simp only [Metadata.metadata, State.step, State.workerStep, State.commitJob, here,
          committed]) alone (by simp)).then serving
        fun σ' later failing => comes_failed later failing other

/-- The file is removed. -/
theorem comes_waiting {deletion : Deletion}
    (here : σ.deployment.core.workers w = .waiting job deletion) :
    Comes s c w key limit σ fun σ' => σ'.deployment.core.workers w = .idle := by
  have awaits : σ.deployment.awaited (.worker w) =
      some ⟨deletion.node, .remove job.task.chunk deletion.inst deletion.volume⟩ := by
    simp only [Deployment.awaited, here]
  refine (comes_answered serving awaits).then serving ?_
  rintro σ' later ⟨same, answer, answered⟩
  have there := here
  rw [← same] at there
  have awaited : (σ'.deployment.awaited (.worker w)).isSome = true := by
    simp only [Deployment.awaited, there]
    rfl
  cases answer with
  | false => exact comes_refused later there rfl (by simp) awaited answered other
  | true =>
      refine (worker_acts later .removeDone (.removeDone job deletion) rfl trivial
        ⟨_, answered, rfl⟩ (by simp only [Metadata.metadata, State.step, State.workerStep, there])
        (by rintro _ ⟨⟩; exact other) (by simp)).then later ?_
      intro σ'' last removed
      exact comes_removed last other removed

theorem comes_removing {deletion : Deletion}
    (here : σ.deployment.core.workers w = .removing job deletion) :
    Comes s c w key limit σ fun σ' => σ'.deployment.core.workers w = .idle := by
  refine (worker_acts serving .sendRemove (.sendRemove job deletion) rfl trivial trivial
    (by simp only [Metadata.metadata, State.step, State.workerStep, here])
    (by rintro _ ⟨⟩; exact other) (by simp)).then serving ?_
  intro σ' later waiting
  exact comes_waiting later other waiting

/-- A copy is written down. -/
theorem comes_verified {repair : Repair}
    (here : σ.deployment.core.workers w = .verified job repair) :
    Comes s c w key limit σ fun σ' => σ'.deployment.core.workers w = .idle := by
  have alone : ∀ job', (Worker.verified job repair).job? = some job' → key ≠ job'.task := by
    rintro _ ⟨⟩
    exact other
  cases committed : σ.deployment.core.db.repairCommit c σ.deployment.core.now job repair with
  | ok db =>
      exact worker_acts serving .commit (.repairCommit c job repair db committed) rfl trivial
        trivial (by simp only [Metadata.metadata, State.step, State.workerStep, State.commitJob,
          here, committed]) alone (by simp)
  | error failure =>
      exact (worker_acts serving .commit (.abort c _ job failure.message rfl) rfl trivial trivial
        (by simp only [Metadata.metadata, State.step, State.workerStep, State.commitJob, here,
          committed]) alone (by simp)).then serving
        fun σ' later failing => comes_failed later failing other

/-- The copy is asked for. -/
theorem comes_stored {repair : Repair}
    (here : σ.deployment.core.workers w = .stored job repair) :
    Comes s c w key limit σ fun σ' => σ'.deployment.core.workers w = .idle := by
  refine (worker_acts serving .sendStat (.sendStat job repair) rfl trivial trivial
    (by simp only [Metadata.metadata, State.step, State.workerStep, here])
    (by rintro _ ⟨⟩; exact other) (by simp)).then serving ?_
  intro asked serving checking
  have awaits : asked.deployment.awaited (.worker w) =
      some ⟨repair.target, .stat job.task.chunk repair.length repair.sha⟩ := by
    simp only [Deployment.awaited, checking]
  refine (comes_answered serving awaits).then serving ?_
  rintro σ' later ⟨same, answer, answered⟩
  rw [← same] at checking
  have awaited : (σ'.deployment.awaited (.worker w)).isSome = true := by
    simp only [Deployment.awaited, checking]
    rfl
  cases answer with
  | false => exact comes_refused later checking rfl (by simp) awaited answered other
  | true =>
      refine (worker_acts later .statDone (.statDone job repair) rfl trivial
        ⟨_, answered, rfl⟩ (by simp only [Metadata.metadata, State.step, State.workerStep, checking])
        (by rintro _ ⟨⟩; exact other) (by simp)).then later ?_
      intro σ'' last verified
      exact comes_verified last other verified

/-- The copy is sent to its target. -/
theorem comes_putting {repair : Repair} {ticket : Claims}
    (here : σ.deployment.core.workers w = .putting job repair ticket) :
    Comes s c w key limit σ fun σ' => σ'.deployment.core.workers w = .idle := by
  have awaits : σ.deployment.awaited (.worker w) =
      some ⟨repair.target, .put job.task.chunk ticket (σ.deployment.buffers w)⟩ := by
    simp only [Deployment.awaited, here]
  refine (comes_answered serving awaits).then serving ?_
  rintro σ' later ⟨same, answer, answered⟩
  have there := here
  rw [← same] at there
  have awaited : (σ'.deployment.awaited (.worker w)).isSome = true := by
    simp only [Deployment.awaited, there]
    rfl
  cases answer with
  | false => exact comes_refused later there rfl (by simp) awaited answered other
  | true =>
      refine (worker_acts later .putDone (.putDone job repair ticket) rfl trivial
        ⟨_, answered, rfl⟩ (by simp only [Metadata.metadata, State.step, State.workerStep, there])
        (by rintro _ ⟨⟩; exact other) (by simp)).then later ?_
      intro σ'' last stored
      exact comes_stored last other stored

omit serving other in
theorem rested_of_wait (c : Config) (length : Nat) (now slept : Int) :
    (length * c.repairWorkers : Int) ≤
      (now + ((length * c.repairWorkers + (slept - now).toNat : Nat) : Int) - slept) *
        c.bandwidth := by
  have slow : (1 : Int) ≤ c.bandwidth := by
    exact_mod_cast le_trans (by decide) c.bandwidthBounds.1
  have waited : (length * c.repairWorkers : Int) ≤
      now + ((length * c.repairWorkers + (slept - now).toNat : Nat) : Int) - slept := by
    push_cast
    have := Int.self_le_toNat (slept - now)
    omega
  have positive : (0 : Int) ≤ length * c.repairWorkers := by positivity
  exact le_trans waited (le_mul_of_one_le_right (le_trans positive waited) slow)

/-- The thread waits for its transfer and sends the copy. -/
theorem comes_fetched {repair : Repair} {sha : Sha}
    (here : σ.deployment.core.workers w = .fetched job repair sha) :
    Comes s c w key limit σ fun σ' => σ'.deployment.core.workers w = .idle := by
  obtain ⟨rested, ticks, same, _, _, slept⟩ := @leads_tick s c w σ
    (repair.length * c.repairWorkers + (σ.slept - σ.deployment.core.now).toNat)
  have errand : Errand key limit σ rested := ⟨.of_tasks (by rw [same]), by
    rw [same]
    exact Int.le_add_of_nonneg_right (Int.natCast_nonneg _), by rw [same]⟩
  have there : rested.deployment.core.workers w = .fetched job repair sha := by
    rw [same]
    exact here
  have waited : rested.Rested c w := by
    simp only [Upkeep.Rested, same, here, slept]
    exact rested_of_wait c repair.length σ.deployment.core.now σ.slept
  have serving' := serving.next ticks errand
  refine .next ticks errand ((worker_acts serving' .sendPut (.sendPut c job repair sha) rfl waited
    trivial (by simp only [Metadata.metadata, State.step, State.workerStep, there])
    (by rintro _ ⟨⟩; exact other) (by simp)).then serving' ?_)
  intro σ' later putting
  exact comes_putting later other putting

theorem comes_fetching {repair : Repair} {left : List Source}
    (here : σ.deployment.core.workers w = .fetching job repair left) :
    Comes s c w key limit σ fun σ' => σ'.deployment.core.workers w = .idle := by
  induction left generalizing σ with
  | nil =>
      have stepped : Metadata.metadata.step σ.deployment.core (.raise w "") =
          some (State.setWorker σ.deployment.core w (.failing job ("".take 255).toString)) := by
        simp only [Metadata.metadata, State.step, State.workerStep, here, Worker.job?]
      have exhausted : σ.exhausted w = true := by
        simp only [Upkeep.exhausted, here]
      refine (worker_acts serving (.raise "") (.raise (.fetching job repair []) job "" _ rfl) rfl
        (.inl exhausted) trivial stepped (by rintro _ ⟨⟩; exact other) (by simp)).then serving ?_
      intro σ' later failing
      exact comes_failed later failing other
  | cons source left inductionHypothesis =>
      cases read : σ.deployment.fetched s w with
      | none =>
          refine (worker_acts serving (.fetch false) (.lost job repair source left) rfl
            (by simp only [Upkeep.Permits, read]; rfl) (by simp [Deployment.Allows])
            (by simp only [Metadata.metadata, State.step, State.workerStep, here])
            (by rintro _ ⟨⟩; exact other) (by simp)).then serving ?_
          intro σ' later fetching
          exact inductionHypothesis later fetching
      | some content =>
          obtain ⟨sha, known⟩ := fetched_hashed here read
          refine (worker_acts serving (.fetch true) (.fetched job repair source left sha known) rfl
            (by simp only [Upkeep.Permits, read]; rfl)
            (by simp only [Deployment.Allows, read]; simp)
            (by simp only [Metadata.metadata, State.step, State.workerStep, here, known])
            (by rintro _ ⟨⟩; exact other) (by simp)).then serving ?_
          intro σ' later fetched
          exact comes_fetched later other fetched

end Others

theorem comes_claimed (serving : Serving s c key limit σ) {job : Job}
    (here : σ.deployment.core.workers w = .claimed job) (other : key ≠ job.task) :
    Comes s c w key limit σ fun σ' => σ'.deployment.core.workers w = .idle := by
  have alone : ∀ job', (Worker.claimed job).job? = some job' → key ≠ job'.task := by
    rintro _ ⟨⟩
    exact other
  have fails : ∀ reason, Metadata.metadata.step σ.deployment.core (.begin w c) =
      some (σ.deployment.core.setWorker w (.failing job reason)) →
      Comes s c w key limit σ fun σ' => σ'.deployment.core.workers w = .idle := by
    intro reason stepped
    exact (worker_acts serving .begin (.refuse c job reason) rfl trivial trivial stepped
      alone (by simp)).then serving fun σ' later failing => comes_failed later failing other
  cases kind : job.task.kind with
  | delete =>
      cases begun : σ.deployment.core.db.deleteBegin c σ.deployment.core.now job with
      | error failure =>
          exact fails failure.message (by simp only [Metadata.metadata, State.step,
            State.workerStep, State.beginJob, here, kind, begun])
      | ok result =>
          obtain ⟨deletion, db⟩ := result
          exact (worker_acts serving .begin (.deleteBegin c job deletion db kind begun) rfl trivial
            trivial (by simp only [Metadata.metadata, State.step, State.workerStep, State.beginJob,
              here, kind, begun]) alone (by simp)).then serving
            fun σ' later removing => comes_removing later other removing
  | repair =>
      cases begun : σ.deployment.core.db.repairBegin c σ.deployment.core.now job with
      | error failure =>
          exact fails failure.message (by simp only [Metadata.metadata, State.step,
            State.workerStep, State.beginJob, here, kind, begun])
      | ok result =>
          obtain ⟨repair, db⟩ := result
          cases repair with
          | none =>
              exact worker_acts serving .begin (.repairExit c job db kind begun) rfl trivial
                trivial (by simp only [Metadata.metadata, State.step, State.workerStep,
                  State.beginJob, here, kind, begun]) alone (by simp)
          | some repair =>
              exact (worker_acts serving .begin (.repairBegin c job repair db kind begun) rfl
                trivial trivial (by simp only [Metadata.metadata, State.step, State.workerStep,
                  State.beginJob, here, kind, begun]) alone (by simp)).then serving
                fun σ' later fetching => comes_fetching later other fetching

theorem leads_claim {task : TaskKey} (idle : σ.deployment.core.workers w = .idle)
    (next : σ.deployment.core.db.nextTask σ.deployment.core.now = some task) :
    ∃ σ' token, Upkeep.Leads s c w σ σ' ∧
      σ'.deployment.core.workers w = .claimed ⟨task, token⟩ ∧
      σ'.deployment.core.now = σ.deployment.core.now ∧
      σ'.deployment.core.maintenance = σ.deployment.core.maintenance ∧
      σ'.deployment.core.db =
        σ.deployment.core.db.claim c σ.deployment.core.now task token := by
  obtain ⟨token, fresh⟩ := Infinite.exists_notMem_finset σ.deployment.core.issued
  have unused : σ.deployment.core.Fresh [token] := by simp [State.Fresh, fresh]
  have stepped : Metadata.metadata.step σ.deployment.core (.claim w c token) =
      some (State.setWorker (State.issue { σ.deployment.core with
        db := σ.deployment.core.db.claim c σ.deployment.core.now task token } [token]) w
          (.claimed ⟨task, token⟩)) := by
    simp only [Metadata.metadata, State.step, State.workerStep, idle, next, if_pos unused]
  have leads := leads_act (s := s) (c := c) (w := w)
    (show Chore.move c w (.claim token) = _ from rfl) trivial trivial stepped
  obtain ⟨same, _⟩ := σ.deployment.follow_frame s (.claim w c token) (State.setWorker (State.issue
    { σ.deployment.core with
      db := σ.deployment.core.db.claim c σ.deployment.core.now task token } [token]) w
        (.claimed ⟨task, token⟩))
  refine ⟨_, token, leads, ?_, ?_, ?_, ?_⟩
  · dsimp only
    rw [same]
    exact Function.update_self _ _ _
  · dsimp only
    rw [same]
    rfl
  · dsimp only
    rw [same]
    rfl
  · dsimp only
    rw [same]
    rfl

/-- The jobs that come before a task that waits are done. -/
theorem comes_due (serving : Serving s c key limit σ)
    (idle : σ.deployment.core.workers w = .idle) {row : TaskRow}
    (stored : σ.deployment.core.db.tasks.get? key = some row) (early : row.lease ≤ limit) :
    Comes s c w key limit σ fun σ' => σ'.deployment.core.workers w = .idle ∧
      σ'.deployment.core.db.nextTask σ'.deployment.core.now = some key := by
  generalize bound : (σ.deployment.core.db.due limit).card = jobs
  induction jobs using Nat.strong_induction_on generalizing σ with
  | _ jobs inductionHypothesis =>
      have waits : row.state ≠ .done := by
        obtain ⟨_, same, waits⟩ := serving.waits
        obtain rfl := Option.some.inj (stored.symm.trans same)
        exact waits
      obtain ⟨task, first, next, present, open_, before⟩ :=
        Database.nextTask_first stored waits (lt_of_le_of_lt early serving.late)
      by_cases same : key = task
      · exact .here ⟨idle, same ▸ next⟩
      obtain ⟨claimed, token, claims, there, now, tended, tables⟩ :=
        @leads_claim s c w σ task idle next
      have errand : Errand key limit σ claimed := ⟨by
        rw [tables]
        exact Database.claim_postponed same serving.late, by rw [now], tended⟩
      have serving' := serving.next claims errand
      refine .next claims errand ?_
      obtain ⟨σ', ends, later, resting⟩ := comes_claimed serving' there same
      refine .next ends later (inductionHypothesis _ ?_ (serving'.next ends later) resting ?_ rfl)
      · rw [← bound]
        refine Finset.card_lt_card (Finset.ssubset_iff_subset_ne.mpr
          ⟨(errand.trans later).postponed.due, fun equal => ?_⟩)
        have taken : task ∈ σ.deployment.core.db.due limit :=
          Database.mem_due.mpr ⟨first, present, open_, le_trans before early⟩
        rw [← equal] at taken
        refine @Database.claim_due c σ.deployment.core.now limit σ.deployment.core.db task token
          serving.late ?_
        rw [← tables]
        exact later.postponed.due taken
      · rw [(errand.trans later).postponed.task]
        exact stored

end Jobs

end FileServer.Cluster
