import FileServer.Metadata.Invariant

/-!
# Leases of tasks

A running row is the one its claim wrote, and every claim draws a new token.
Whoever passes the fence therefore holds the task alone since its own claim.
-/

namespace FileServer.Metadata

open FileServer.Relational FileServer.Transition

def ClaimsJob (w : Nat) (job : Job) (row : TaskRow) (event : Event State Action) : Prop :=
  ∃ c old, event.action = .claim w c job.token ∧
    event.before.db.nextTask event.before.now = some job.task ∧
    event.before.db.tasks.get? job.task = some old ∧
    row = Database.claimed c event.before.now job.token old

def ClaimsTask (task : TaskKey) (event : Event State Action) : Prop :=
  ∃ w c token, event.action = .claim w c token ∧
    event.before.db.nextTask event.before.now = some task

/-- The row is the one the thread's claim wrote; since then it has not changed
and nobody has claimed the task. -/
def Exclusive (history : List (Event State Action)) (w : Nat) (job : Job) (row : TaskRow) : Prop :=
  row.state = .running ∧ row.token = some job.token ∧
    Since (fun event => event.after.db.tasks.get? job.task = some row ∧
      ¬ClaimsTask job.task event) (ClaimsJob w job row) (fun _ => True) history

theorem Steps.running {focus : Focus} {drawn : List Ident} {db db' : Database}
    (steps : Steps focus drawn db db') {key : TaskKey} {row : TaskRow}
    (stored : db'.tasks.get? key = some row) (running : row.state = .running) :
    db.tasks.get? key = some row ∨ focus = .claim key row := by
  induction steps with
  | refl => exact .inl stored
  | @tail middle next _ moves inductionHypothesis =>
      have move := moves.tasks key
      rw [stored] at move
      generalize before : middle.tasks.get? key = old at move
      cases move with
      | keep => exact inductionHypothesis before
      | enqueue _ _ free pending => simp [pending] at running
      | claim _ _ owner => exact .inr owner
      | fail _ _ _ pending => simp [pending] at running
      | finish _ _ done => simp [done] at running

theorem claim_step {σ σ' : State} {w : Nat} {c : Config} {token : Ident}
    (stepped : metadata.step σ (.claim w c token) = some σ') :
    ∃ task, σ.workers w = .idle ∧ σ.db.nextTask σ.now = some task ∧ token ∉ σ.issued ∧
      σ'.db = σ.db.claim c σ.now task token ∧ token ∈ σ'.issued := by
  have taken : σ.step (.claim w c token) = some σ' := stepped
  simp only [State.step, State.workerStep] at taken
  split at taken
  · next task idle next =>
      split at taken
      · next fresh =>
          cases taken
          exact ⟨task, idle, next, fresh.2 token (by simp), rfl, by simp [State.issue, State.setWorker]⟩
      · cases taken
  · cases taken

theorem WorkerMove.job {σ : State} {w : Nat} {action : Action} {worker worker' : Worker}
    {db : Database} (move : WorkerMove σ w action worker worker' db) {job : Job}
    (working : worker'.job? = some job) : worker.job? = some job ∨
      ∃ c, action = .claim w c job.token ∧ σ.db.nextTask σ.now = some job.task := by
  cases move with
  | claim c token task next fresh =>
      cases working
      exact .inr ⟨c, rfl, next⟩
  | repairExit | deleteCommit | repairCommit | fail | crash => simp [Worker.job?] at working
  | abort c worker old reason earlier | raise worker old text reason earlier =>
      cases working
      exact .inl earlier
  | deleteBegin | repairBegin | refuse | sendRemove | removeDone | fetched | lost | sendPut
  | putDone | sendStat | statDone => exact .inl working

section Runs

variable {history : List (Event State Action)} {σ : State}

theorem issued_grows {σ σ' : State} {action : Action} (reached : Reachable metadata σ)
    (stepped : metadata.step σ action = some σ') : σ.issued ⊆ σ'.issued := by
  obtain ⟨_, _, _, _, effect⟩ := reachable_effect reached stepped
  exact effect.issued

theorem token_issued (run : Run metadata history σ) {event : Event State Action}
    (membership : event ∈ history) {w : Nat} {c : Config} {token : Ident}
    (claims : event.action = .claim w c token) : token ∈ σ.issued := by
  induction run with
  | start => simp at membership
  | next earlier stepped inductionHypothesis =>
      rcases List.mem_cons.mp membership with rfl | older
      · simp only at claims
        subst claims
        obtain ⟨_, _, _, _, _, issued⟩ := claim_step stepped
        exact issued
      · exact issued_grows earlier.reachable stepped (inductionHypothesis older)

theorem token_unique (run : Run metadata history σ) {first second : Event State Action}
    (membership : first ∈ history) (membership' : second ∈ history) {v w : Nat} {c c' : Config}
    {token : Ident} (claims : first.action = .claim v c token)
    (claims' : second.action = .claim w c' token) : first = second := by
  induction run with
  | start => simp at membership
  | next earlier stepped inductionHypothesis =>
      rcases List.mem_cons.mp membership with rfl | older
      · rcases List.mem_cons.mp membership' with rfl | older'
        · rfl
        · simp only at claims
          subst claims
          obtain ⟨_, _, _, fresh, _⟩ := claim_step stepped
          exact absurd (token_issued earlier older' claims') fresh
      · rcases List.mem_cons.mp membership' with rfl | older'
        · simp only at claims'
          subst claims'
          obtain ⟨_, _, _, fresh, _⟩ := claim_step stepped
          exact absurd (token_issued earlier older claims) fresh
        · exact inductionHypothesis older older'

theorem job_claimed (run : Run metadata history σ) {w : Nat} {job : Job}
    (working : (σ.workers w).job? = some job) : ∃ event ∈ history, ∃ c,
      event.action = .claim w c job.token ∧
        event.before.db.nextTask event.before.now = some job.task := by
  revert w job
  refine run.historyInvariant (fun history σ => ∀ {w job}, (σ.workers w).job? = some job →
    ∃ event ∈ history, ∃ c, event.action = .claim w c job.token ∧
      event.before.db.nextTask event.before.now = some job.task) ?_ ?_
  · intro w job working
    simp [metadata, State.initial, Worker.job?] at working
  intro history σ action σ' earlier inductionHypothesis stepped w job working
  have old : (σ.workers w).job? = some job → ∃ event ∈ (⟨σ, action, σ'⟩ :: history), ∃ c,
      event.action = .claim w c job.token ∧
        event.before.db.nextTask event.before.now = some job.task := by
    intro before
    obtain ⟨event, membership, claimed⟩ := inductionHypothesis before
    exact ⟨event, List.mem_cons_of_mem _ membership, claimed⟩
  cases happens stepped with
  | worker _ v worker db move =>
      by_cases same : w = v
      · subst same
        simp only [Function.update_self] at working
        rcases move.job working with before | ⟨c, claims, next⟩
        · exact old before
        · exact ⟨_, List.mem_cons_self, c, claims, next⟩
      · exact old (by simpa [Function.update_of_ne same] using working)
  | tick | request | requestBy | beat | refuse | register | reject | dropBeat | confirm | maintenance =>
      exact old working

/-- Distinct threads hold distinct tokens. -/
theorem job_exclusive (run : Run metadata history σ) {v w : Nat} {job job' : Job}
    (working : (σ.workers v).job? = some job) (working' : (σ.workers w).job? = some job')
    (same : job.token = job'.token) : v = w := by
  obtain ⟨first, membership, c, claims, _⟩ := job_claimed run working
  obtain ⟨second, membership', c', claims', _⟩ := job_claimed run working'
  obtain rfl := token_unique run membership membership' claims (same ▸ claims')
  rw [claims] at claims'
  exact (Action.claim.inj claims').1

theorem running_since (run : Run metadata history σ) {task : TaskKey} {row : TaskRow}
    (stored : σ.db.tasks.get? task = some row) (running : row.state = .running) :
    ∃ w token, Exclusive history w ⟨task, token⟩ row := by
  revert task row
  refine run.historyInvariant (fun history σ => ∀ {task row}, σ.db.tasks.get? task = some row →
    row.state = .running → ∃ w token, Exclusive history w ⟨task, token⟩ row) ?_ ?_
  · intro task row stored
    simp [metadata, State.initial, Database.empty] at stored
  intro history σ action σ' earlier inductionHypothesis stepped task row stored running
  obtain ⟨focus, focuses, _, _, effect⟩ := reachable_effect earlier.reachable stepped
  rcases effect.steps.running stored running with before | rfl
  · obtain ⟨w, token, _, owned, since⟩ := inductionHypothesis before running
    refine ⟨w, token, running, owned, .inr ⟨⟨stored, ?_⟩, since⟩⟩
    rintro ⟨v, c, fresh, rfl, next⟩
    obtain ⟨other, _, selected, unissued, result, _⟩ := claim_step stepped
    obtain rfl := Option.some.inj (next.symm.trans selected)
    obtain ⟨_, event, _, equality, ⟨_, _, claims, _⟩, _⟩ := since_iff.mp since
    have issued := token_issued earlier (by simp [equality]) claims
    rw [result, Database.claim, Database.modifyTask, Table.get?_modify_self, before,
      Option.map_some, Option.some.injEq] at stored
    rw [← stored, Option.some.injEq] at owned
    exact unissued (owned ▸ issued)
  · cases focuses with
    | request c owner command ident focus focused => cases focused
    | requestBy _ _ _ _ _ move =>
        cases move with
        | command _ _ _ _ _ focused => cases focused
    | claim w c token _ old idle next before fresh =>
        exact ⟨w, token, rfl, rfl, .inl ⟨⟨c, old, rfl, next, before, rfl⟩, trivial⟩⟩

theorem job_held (run : Run metadata history σ) {w : Nat} {job : Job} {row : TaskRow}
    (working : (σ.workers w).job? = some job) (stored : σ.db.tasks.get? job.task = some row)
    (token : row.token = some job.token) (running : row.state = .running) :
    Exclusive history w job row := by
  obtain ⟨v, other, _, owned, since⟩ := running_since run stored running
  obtain rfl := Option.some.inj (owned.symm.trans token)
  obtain ⟨_, event, _, equality, ⟨c, old, claims, _⟩, _⟩ := since_iff.mp since
  obtain ⟨event', membership', c', claims', _⟩ := job_claimed run working
  obtain rfl := token_unique run (by simp [equality]) membership' claims claims'
  rw [claims] at claims'
  obtain rfl := (Action.claim.inj claims').1
  exact ⟨running, token, since⟩

/-- At most one token passes the fence of a task and at most one thread holds
it; a second transaction takes effect only while its lease runs and the task
has been the thread's alone since its claim; and a failing thread changes
nothing unless the task has been its alone since its claim. -/
theorem leases_fenced (run : Run metadata history σ) :
    (∀ task token token', σ.db.Fence σ.now ⟨task, token⟩ → σ.db.Fence σ.now ⟨task, token'⟩ →
      token = token') ∧
    (∀ v w job job', (σ.workers v).job? = some job → (σ.workers w).job? = some job' →
      job.token = job'.token → v = w) ∧
    (∀ w c σ', metadata.step σ (.commit w c) = some σ' → σ'.db = σ.db ∨
      ∃ job row, (σ.workers w).job? = some job ∧ σ.db.tasks.get? job.task = some row ∧
        σ.now < row.lease ∧ Exclusive history w job row) ∧
    (∀ w σ', metadata.step σ (.fail w) = some σ' → σ'.db = σ.db ∨
      ∃ job row, (σ.workers w).job? = some job ∧ σ.db.tasks.get? job.task = some row ∧
        Exclusive history w job row) := by
  have fenced : ∀ w job, (σ.workers w).job? = some job → σ.db.Fence σ.now job →
      ∃ job row, (σ.workers w).job? = some job ∧ σ.db.tasks.get? job.task = some row ∧
        σ.now < row.lease ∧ Exclusive history w job row := by
    rintro w job working ⟨row, stored, token, running, alive⟩
    exact ⟨job, row, working, stored, alive, job_held run working stored token running⟩
  refine ⟨?_, fun v w job job' => job_exclusive run, ?_, ?_⟩
  · rintro task token token' ⟨row, stored, owned, _⟩ ⟨row', stored', owned', _⟩
    obtain rfl := Option.some.inj (stored.symm.trans stored')
    exact Option.some.inj (owned.symm.trans owned')
  · intro w c σ' stepped
    have taken : σ.step (.commit w c) = some σ' := stepped
    simp only [State.step, State.workerStep, State.commitJob] at taken
    split at taken
    · next job deletion removed =>
        split at taken
        · next db committed =>
            simp only [Database.deleteCommit, Database.fence, bind_eq_ok, require_eq_ok] at committed
            obtain ⟨_, passed, _⟩ := committed
            exact .inr (fenced w job (by rw [removed]; rfl) passed)
        · cases taken
          exact .inl rfl
    · next job repair verified =>
        split at taken
        · next db committed =>
            obtain ⟨_, _, _, _, passed, _⟩ := Database.repairCommit_ok committed
            exact .inr (fenced w job (by rw [verified]; rfl) passed)
        · cases taken
          exact .inl rfl
    · cases taken
  · intro w σ' stepped
    have taken : σ.step (.fail w) = some σ' := stepped
    simp only [State.step, State.workerStep] at taken
    split at taken
    · next job reason failing =>
        cases taken
        have working : (σ.workers w).job? = some job := by rw [failing]; rfl
        cases stored : σ.db.tasks.get? job.task with
        | none =>
            left
            have same : σ.db.failTask σ.now job reason = σ.db := by
              rw [Database.failTask, Database.modifyTask,
                Table.modify_eq_self _ (by simp [stored])]
            exact same
        | some row =>
            by_cases held : row.token = some job.token ∧ row.state = .running
            · exact .inr ⟨job, row, working, stored, job_held run working stored held.1 held.2⟩
            · left
              have same : σ.db.failTask σ.now job reason = σ.db := by
                rw [Database.failTask, Database.modifyTask, Table.modify_eq_self]
                intro other located
                obtain rfl := Option.some.inj (stored.symm.trans located)
                exact if_neg held
              exact same
    · cases taken

end Runs

/-- A repair that publishes its copy has held its task alone. -/
theorem leases_fenced_repaired : ∃ history σ row, Run metadata history σ ∧
    Exclusive history 0 ⟨⟨.repair, 1002, none⟩, 5000⟩ row := by
  let actions := repairActions ++ [.fetch 0 true, .sendPut 0 installation, .putDone 0, .sendStat 0,
    .statDone 0]
  have run := metadata.run actions (by decide +kernel)
  have stepped := (Option.some_get (show (metadata.step ((metadata.execute metadata.initial
    actions).get (by decide +kernel)) (.commit 0 installation)).isSome by decide +kernel)).symm
  rcases (leases_fenced run).2.2.1 0 installation _ stepped with same | ⟨job, row, working, _, _, held⟩
  · have changed : ((metadata.step ((metadata.execute metadata.initial actions).get
        (by decide +kernel)) (.commit 0 installation)).get (by decide +kernel)).db.replicas.get?
          (1002, 3) ≠ ((metadata.execute metadata.initial actions).get
            (by decide +kernel)).db.replicas.get? (1002, 3) := by decide +kernel
    exact absurd (by rw [same]) changed
  · have known : (((metadata.execute metadata.initial actions).get
        (by decide +kernel)).workers 0).job? = some ⟨⟨.repair, 1002, none⟩, 5000⟩ := by
      decide +kernel
    obtain rfl := Option.some.inj (known.symm.trans working)
    exact ⟨_, _, row, run, held⟩

/-- A thread whose lease has expired still puts the task back when it fails. -/
theorem expired_lease_fails : ¬∀ σ, Reachable metadata σ → ∀ w job reason row σ',
    σ.workers w = .failing job reason → σ.db.tasks.get? job.task = some row → row.lease ≤ σ.now →
    metadata.step σ (.fail w) = some σ' → σ'.db.tasks.get? job.task = some row := by
  let actions := repairActions ++ [.tick 40, .raise 0 "timed out"]
  intro unchanged
  have run := metadata.run actions (by decide +kernel)
  have stepped := (Option.some_get (show (metadata.step ((metadata.execute metadata.initial
    actions).get (by decide +kernel)) (.fail 0)).isSome by decide +kernel)).symm
  have result := unchanged _ run.reachable 0 ⟨⟨.repair, 1002, none⟩, 5000⟩ "timed out"
    ⟨.running, 44, some 5000, 1, ""⟩ _ (by decide +kernel) (by decide +kernel) (by decide +kernel)
    stepped
  have changed : ((metadata.step ((metadata.execute metadata.initial actions).get
      (by decide +kernel)) (.fail 0)).get (by decide +kernel)).db.tasks.get? ⟨.repair, 1002, none⟩ ≠
        some ⟨.running, 44, some 5000, 1, ""⟩ := by decide +kernel
  exact changed result

end FileServer.Metadata
