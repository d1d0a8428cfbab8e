import FileServer.Metadata.System

/-!
# What an action does

The step function is inverted once.  A move of a task thread, of a `confirm`
or of the maintenance thread gives the state of that operation before and
after and the tables its transaction leaves; everything else is unchanged.
-/

namespace FileServer.Metadata

open FileServer.Relational FileServer.Transition

def Action.issues : Action → List Ident
  | .request c _ command ident => command.drawn c ident
  | .requestBy c _ asked ident => asked.drawn c ident
  | .claim _ _ token => [token]
  | .page ids _ => ids
  | _ => []

namespace Worker

def deletion? : Worker → Option (Job × Deletion)
  | .removing job deletion | .waiting job deletion | .removed job deletion => some (job, deletion)
  | _ => none

def repair? : Worker → Option (Job × Repair)
  | .fetching job repair _ | .fetched job repair _ | .putting job repair _ | .stored job repair
  | .checking job repair | .verified job repair => some (job, repair)
  | _ => none

end Worker

namespace Maintenance

/-- The nodes being or to be visited. -/
def views : Maintenance → List NodeView
  | .idle | .maintained => []
  | .scanning views => views
  | .checks view _ views | .asking view _ _ views | .judged view _ _ _ views
  | .paging view _ views | .listing view _ _ _ views => view :: views

def pending : Maintenance → List Check
  | .checks _ left _ => left
  | .asking _ check left _ | .judged _ check _ left _ => check :: left
  | _ => []

def files : Maintenance → List Ident
  | .listing _ ids _ _ _ => ids
  | _ => []

end Maintenance

/-- The moves of the task thread `w`. -/
inductive WorkerMove (σ : State) (w : Nat) : Action → Worker → Worker → Database → Prop where
  | claim (c token task) (next : σ.db.nextTask σ.now = some task) (fresh : token ∉ σ.issued) :
      WorkerMove σ w (.claim w c token) .idle (.claimed ⟨task, token⟩)
        (σ.db.claim c σ.now task token)
  | deleteBegin (c job deletion db) (deletes : job.task.kind = .delete)
      (begun : σ.db.deleteBegin c σ.now job = .ok (deletion, db)) :
      WorkerMove σ w (.begin w c) (.claimed job) (.removing job deletion) db
  | repairBegin (c job repair db) (repairs : job.task.kind = .repair)
      (begun : σ.db.repairBegin c σ.now job = .ok (some repair, db)) :
      WorkerMove σ w (.begin w c) (.claimed job) (.fetching job repair repair.sources) db
  | repairExit (c job db) (repairs : job.task.kind = .repair)
      (begun : σ.db.repairBegin c σ.now job = .ok (none, db)) :
      WorkerMove σ w (.begin w c) (.claimed job) .idle db
  | refuse (c job reason) : WorkerMove σ w (.begin w c) (.claimed job) (.failing job reason) σ.db
  | sendRemove (job deletion) :
      WorkerMove σ w (.sendRemove w) (.removing job deletion) (.waiting job deletion) σ.db
  | removeDone (job deletion) :
      WorkerMove σ w (.removeDone w) (.waiting job deletion) (.removed job deletion) σ.db
  | fetched (job repair source left sha) (known : repair.sha = some sha) :
      WorkerMove σ w (.fetch w true) (.fetching job repair (source :: left))
        (.fetched job repair sha) σ.db
  | lost (job repair source left) :
      WorkerMove σ w (.fetch w false) (.fetching job repair (source :: left))
        (.fetching job repair left) σ.db
  | sendPut (c job repair sha) :
      WorkerMove σ w (.sendPut w c) (.fetched job repair sha) (.putting job repair
        ⟨repair.upload, job.task.chunk, repair.length, sha, repair.target, repair.volume,
          repair.inst, σ.now + c.authTtl⟩) σ.db
  | putDone (job repair ticket) :
      WorkerMove σ w (.putDone w) (.putting job repair ticket) (.stored job repair) σ.db
  | sendStat (job repair) :
      WorkerMove σ w (.sendStat w) (.stored job repair) (.checking job repair) σ.db
  | statDone (job repair) :
      WorkerMove σ w (.statDone w) (.checking job repair) (.verified job repair) σ.db
  | deleteCommit (c job deletion db)
      (committed : σ.db.deleteCommit σ.now job deletion = .ok db) :
      WorkerMove σ w (.commit w c) (.removed job deletion) .idle db
  | repairCommit (c job repair db)
      (committed : σ.db.repairCommit c σ.now job repair = .ok db) :
      WorkerMove σ w (.commit w c) (.verified job repair) .idle db
  | abort (c worker job reason) (working : worker.job? = some job) :
      WorkerMove σ w (.commit w c) worker (.failing job reason) σ.db
  | raise (worker job text reason) (working : worker.job? = some job) :
      WorkerMove σ w (.raise w text) worker (.failing job reason) σ.db
  | fail (job reason) :
      WorkerMove σ w (.fail w) (.failing job reason) .idle (σ.db.failTask σ.now job reason)
  | crash (worker) : WorkerMove σ w (.crash w) worker .idle σ.db

inductive ConfirmMove (σ : State) (i : Nat) : Action → Option Confirming → Database → Prop where
  | begin (c upload owner seq op) (absent : σ.confirms i = none)
      (begun : σ.db.confirmBegin c σ.now upload owner seq = .ok op) :
      ConfirmMove σ i (.confirm i c upload owner seq) (some op) σ.db
  | refuse (c upload owner seq) (absent : σ.confirms i = none) :
      ConfirmMove σ i (.confirm i c upload owner seq) none σ.db
  | ask (op) (present : σ.confirms i = some op) (more : op.left ≠ []) (silent : op.asked = false) :
      ConfirmMove σ i (.confirmAsk i) (some { op with asked := true }) σ.db
  | stat (op) (present : σ.confirms i = some op) (asked : op.asked = true) :
      ConfirmMove σ i (.confirmStat i) (some { op with left := op.left.tail, asked := false }) σ.db
  | commit (c op bytes db) (present : σ.confirms i = some op) (finished : op.left = [])
      (committed : σ.db.confirmCommit c σ.now op = .ok (bytes, db)) :
      ConfirmMove σ i (.confirmCommit i c) none db
  | abort (c op) (present : σ.confirms i = some op) : ConfirmMove σ i (.confirmCommit i c) none σ.db
  | drop : ConfirmMove σ i (.dropConfirm i) none σ.db

inductive MaintenanceMove (σ : State) : Action → Maintenance → Maintenance → Database → Prop where
  | maintain (c) : MaintenanceMove σ (.maintain c) .idle .maintained (σ.db.maintain c σ.now)
  | scan (c) : MaintenanceMove σ (.scan c) .maintained (.scanning (σ.db.liveNodes c σ.now)) σ.db
  | finish : MaintenanceMove σ .visit (.scanning []) .idle σ.db
  | visit (view views) : MaintenanceMove σ .visit (.scanning (view :: views))
      (.checks view (σ.db.unverifiedOn view.node) views) σ.db
  | checked (view views) : MaintenanceMove σ .visit (.checks view [] views)
      (.paging view none views) σ.db
  | listed (view last views) : MaintenanceMove σ .visit (.listing view [] last false views)
      (.scanning views) σ.db
  | turn (view last views) : MaintenanceMove σ .visit (.listing view [] (some last) true views)
      (.paging view (some last) views) σ.db
  | fault (view views) : MaintenanceMove σ .visit (.listing view [] none true views) .idle σ.db
  | ask (view check left views) : MaintenanceMove σ .checkAsk (.checks view (check :: left) views)
      (.asking view check left views) σ.db
  | answer (view check left views valid) : MaintenanceMove σ (.checkAnswer valid)
      (.asking view check left views) (.judged view check valid left views) σ.db
  | reverify (view check valid left views db)
      (judged : σ.db.reverify view check valid = .ok db) :
      MaintenanceMove σ .reverify (.judged view check valid left views) (.checks view left views) db
  | broken (view check valid left views) :
      MaintenanceMove σ .reverify (.judged view check valid left views) .idle σ.db
  | page (view cursor views ids more) : MaintenanceMove σ (.page ids more)
      (.paging view cursor views) (.listing view ids ids.getLast? more views) σ.db
  | review (c view cid ids last more views) : MaintenanceMove σ (.review c)
      (.listing view (cid :: ids) last more views) (.listing view ids last more views)
      (σ.db.reviewFile c σ.now view cid)
  | skip (maintenance view views) (visiting : maintenance.views = view :: views) :
      MaintenanceMove σ .skipNode maintenance (.scanning views) σ.db
  | stop (maintenance) : MaintenanceMove σ .stopMaintenance maintenance .idle σ.db

namespace State

variable {σ σ' : State} {action : Action}

theorem moved_by {w : Nat} {worker worker' : Worker} {db : Database}
    (here : σ.workers w = worker) (move : WorkerMove σ w action worker worker' db)
    (silent : action.issues = []) (result : σ' = { σ with db }.setWorker w worker') :
    ∃ w worker db, WorkerMove σ w action (σ.workers w) worker db ∧
      σ' = { σ with
        db, issued := σ.issued ∪ action.issues.toFinset
        workers := Function.update σ.workers w worker } :=
  ⟨w, worker', db, here ▸ move, by simp [result, silent, setWorker]⟩

theorem workerStep_cases (stepped : σ.workerStep action = some σ') :
    ∃ w worker db, WorkerMove σ w action (σ.workers w) worker db ∧
      σ' = { σ with
        db, issued := σ.issued ∪ action.issues.toFinset
        workers := Function.update σ.workers w worker } := by
  cases action with
  | claim w c token =>
      simp only [workerStep] at stepped
      split at stepped
      · next task idle next =>
          split at stepped
          · next fresh =>
              cases stepped
              exact ⟨w, _, _, idle ▸ WorkerMove.claim c token task next (fresh.2 token (by simp)), rfl⟩
          · cases stepped
      · cases stepped
  | begin w c =>
      simp only [workerStep] at stepped
      split at stepped
      · next job claimed =>
          cases stepped
          simp only [beginJob]
          split
          · next deletes =>
              split
              · next deletion db begun =>
                  exact moved_by claimed (.deleteBegin c job deletion db deletes begun) rfl rfl
              · next failure raised =>
                  exact moved_by claimed (.refuse c job failure.message) rfl rfl
          · next repairs =>
              split
              · next repair db begun =>
                  exact moved_by claimed (.repairBegin c job repair db repairs begun) rfl rfl
              · next db begun =>
                  exact moved_by claimed (.repairExit c job db repairs begun) rfl rfl
              · next failure raised =>
                  exact moved_by claimed (.refuse c job failure.message) rfl rfl
      · cases stepped
  | sendRemove w =>
      simp only [workerStep] at stepped
      split at stepped
      · next job deletion here =>
          cases stepped
          exact moved_by here (.sendRemove job deletion) rfl rfl
      · cases stepped
  | removeDone w =>
      simp only [workerStep] at stepped
      split at stepped
      · next job deletion here =>
          cases stepped
          exact moved_by here (.removeDone job deletion) rfl rfl
      · cases stepped
  | fetch w success =>
      simp only [workerStep] at stepped
      split at stepped
      · next job repair source left here =>
          split at stepped
          · next sha known =>
              cases stepped
              exact moved_by here (.fetched job repair source left sha known) rfl rfl
          · cases stepped
          · cases stepped
            exact moved_by here (.lost job repair source left) rfl rfl
      · cases stepped
  | sendPut w c =>
      simp only [workerStep] at stepped
      split at stepped
      · next job repair sha here =>
          cases stepped
          exact moved_by here (.sendPut c job repair sha) rfl rfl
      · cases stepped
  | putDone w =>
      simp only [workerStep] at stepped
      split at stepped
      · next job repair ticket here =>
          cases stepped
          exact moved_by here (.putDone job repair ticket) rfl rfl
      · cases stepped
  | sendStat w =>
      simp only [workerStep] at stepped
      split at stepped
      · next job repair here =>
          cases stepped
          exact moved_by here (.sendStat job repair) rfl rfl
      · cases stepped
  | statDone w =>
      simp only [workerStep] at stepped
      split at stepped
      · next job repair here =>
          cases stepped
          exact moved_by here (.statDone job repair) rfl rfl
      · cases stepped
  | commit w c =>
      simp only [workerStep, commitJob] at stepped
      split at stepped
      · next job deletion here =>
          split at stepped
          · next db committed =>
              cases stepped
              exact moved_by here (.deleteCommit c job deletion db committed) rfl rfl
          · next failure raised =>
              cases stepped
              exact moved_by here (.abort c _ job failure.message (by simp [Worker.job?])) rfl rfl
      · next job repair here =>
          split at stepped
          · next db committed =>
              cases stepped
              exact moved_by here (.repairCommit c job repair db committed) rfl rfl
          · next failure raised =>
              cases stepped
              exact moved_by here (.abort c _ job failure.message (by simp [Worker.job?])) rfl rfl
      · cases stepped
  | raise w reason =>
      simp only [workerStep] at stepped
      split at stepped
      · cases stepped
      · next job working _ =>
          cases stepped
          exact moved_by rfl (.raise _ job reason _ working) rfl rfl
      · cases stepped
  | fail w =>
      simp only [workerStep] at stepped
      split at stepped
      · next job reason here =>
          cases stepped
          exact moved_by here (.fail job reason) rfl rfl
      · cases stepped
  | crash w =>
      simp only [workerStep, Option.some.injEq] at stepped
      subst stepped
      exact moved_by rfl (.crash _) rfl rfl
  | _ => simp [workerStep] at stepped

theorem confirmStep_cases (stepped : σ.confirmStep action = some σ') :
    ∃ i op db, ConfirmMove σ i action op db ∧
      σ' = { σ with db, confirms := Function.update σ.confirms i op } := by
  cases action with
  | confirm i c upload owner seq =>
      simp only [confirmStep] at stepped
      split at stepped
      · next op absent begun =>
          cases stepped
          exact ⟨i, _, _, .begin c upload owner seq op absent begun, rfl⟩
      · next absent raised =>
          cases stepped
          exact ⟨i, none, _, .refuse c upload owner seq absent,
            by rw [← absent, Function.update_eq_self]⟩
      · cases stepped
  | confirmAsk i =>
      simp only [confirmStep] at stepped
      split at stepped
      · next op present =>
          split at stepped
          · next ready =>
              cases stepped
              exact ⟨i, _, _, .ask op present ready.1 ready.2, rfl⟩
          · cases stepped
      · cases stepped
  | confirmStat i =>
      simp only [confirmStep] at stepped
      split at stepped
      · next op present =>
          split at stepped
          · next asked =>
              cases stepped
              exact ⟨i, _, _, .stat op present asked, rfl⟩
          · cases stepped
      · cases stepped
  | confirmCommit i c =>
      simp only [confirmStep] at stepped
      split at stepped
      · next op present =>
          split at stepped
          · next finished =>
              cases stepped
              cases committed : σ.db.confirmCommit c σ.now op with
              | ok result =>
                  exact ⟨i, none, _, .commit c op result.1 result.2 present finished committed, rfl⟩
              | error failure => exact ⟨i, none, _, .abort c op present, rfl⟩
          · cases stepped
      · cases stepped
  | dropConfirm i =>
      simp only [confirmStep, Option.some.injEq] at stepped
      exact ⟨i, none, _, .drop, stepped.symm⟩
  | _ => simp [confirmStep] at stepped

theorem maintenanceStep_cases (stepped : σ.maintenanceStep action = some σ') :
    ∃ maintenance db, MaintenanceMove σ action σ.maintenance maintenance db ∧
      σ' = { σ with db, issued := σ.issued ∪ action.issues.toFinset, maintenance } := by
  have quiet : ∀ {before maintenance db}, σ.maintenance = before →
      MaintenanceMove σ action before maintenance db → action.issues = [] →
      σ' = { σ with db, maintenance } → ∃ maintenance db,
        MaintenanceMove σ action σ.maintenance maintenance db ∧
          σ' = { σ with db, issued := σ.issued ∪ action.issues.toFinset, maintenance } := by
    rintro _ maintenance db rfl move silent rfl
    exact ⟨maintenance, db, move, by simp [silent]⟩
  cases action with
  | maintain c =>
      simp only [maintenanceStep] at stepped
      split at stepped
      · next here => cases stepped; exact quiet here (.maintain c) rfl rfl
      · cases stepped
  | scan c =>
      simp only [maintenanceStep] at stepped
      split at stepped
      · next here => cases stepped; exact quiet here (.scan c) rfl rfl
      · cases stepped
  | visit =>
      simp only [maintenanceStep] at stepped
      split at stepped
      · next here => cases stepped; exact quiet here .finish rfl rfl
      · next view views here => cases stepped; exact quiet here (.visit view views) rfl rfl
      · next view views here => cases stepped; exact quiet here (.checked view views) rfl rfl
      · next view last views here => cases stepped; exact quiet here (.listed view last views) rfl rfl
      · next view last views here => cases stepped; exact quiet here (.turn view last views) rfl rfl
      · next view views here => cases stepped; exact quiet here (.fault view views) rfl rfl
      · cases stepped
  | checkAsk =>
      simp only [maintenanceStep] at stepped
      split at stepped
      · next view check left views here =>
          cases stepped
          exact quiet here (.ask view check left views) rfl rfl
      · cases stepped
  | checkAnswer valid =>
      simp only [maintenanceStep] at stepped
      split at stepped
      · next view check left views here =>
          cases stepped
          exact quiet here (.answer view check left views valid) rfl rfl
      · cases stepped
  | reverify =>
      simp only [maintenanceStep] at stepped
      split at stepped
      · next view check valid left views here =>
          split at stepped
          · next db judged =>
              cases stepped
              exact quiet here (.reverify view check valid left views db judged) rfl rfl
          · cases stepped
            exact quiet here (.broken view check valid left views) rfl rfl
      · cases stepped
  | page ids more =>
      simp only [maintenanceStep] at stepped
      split at stepped
      · next view cursor views here =>
          cases stepped
          exact ⟨_, _, here ▸ MaintenanceMove.page view cursor views ids more, rfl⟩
      · cases stepped
  | review c =>
      simp only [maintenanceStep] at stepped
      split at stepped
      · next view cid ids last more views here =>
          cases stepped
          exact quiet here (.review c view cid ids last more views) rfl rfl
      · cases stepped
  | skipNode =>
      simp only [maintenanceStep] at stepped
      split at stepped
      · next view left views here => cases stepped; exact quiet here (.skip _ view views rfl) rfl rfl
      · next view check left views here =>
          cases stepped
          exact quiet here (.skip _ view views rfl) rfl rfl
      · next view check valid left views here =>
          cases stepped
          exact quiet here (.skip _ view views rfl) rfl rfl
      · next view cursor views here =>
          cases stepped
          exact quiet here (.skip _ view views rfl) rfl rfl
      · next view ids last more views here =>
          cases stepped
          exact quiet here (.skip _ view views rfl) rfl rfl
      · cases stepped
  | stopMaintenance =>
      simp only [maintenanceStep, Option.some.injEq] at stepped
      exact quiet rfl (.stop _) rfl stepped.symm
  | _ => simp [maintenanceStep] at stepped

end State

/-- What one step does. -/
inductive Happens (σ : State) : Action → State → Prop where
  | tick (elapsed) : Happens σ (.tick elapsed) { σ with now := σ.now + elapsed }
  | request (c owner command ident) (fresh : σ.Fresh (command.drawn c ident)) :
      Happens σ (.request c owner command ident) { σ with
        db := σ.outcome (σ.db.dispatch c σ.now ident owner command)
        issued := σ.issued ∪ (command.drawn c ident).toFinset }
  | requestBy (c e request ident) (fresh : σ.Fresh (request.drawn c ident)) :
      Happens σ (.requestBy c e request ident) { σ with
        db := σ.outcome (σ.db.dispatchBy e.toEngine c σ.now ident request)
        issued := σ.issued ∪ (request.drawn c ident).toFinset }
  | beat (i c nid inst volume capacity free beat) (absent : σ.beats i = none)
      (accepted : heartbeat c σ.now nid inst volume capacity free = .ok beat) :
      Happens σ (.beat i c nid inst volume capacity free)
        { σ with beats := Function.update σ.beats i (some beat) }
  | refuse (i c nid inst volume capacity free) : Happens σ (.beat i c nid inst volume capacity free) σ
  | register (i c beat db) (present : σ.beats i = some beat)
      (registered : σ.db.register c beat = .ok db) :
      Happens σ (.register i c) { σ with db, beats := Function.update σ.beats i none }
  | reject (i c) : Happens σ (.register i c) { σ with beats := Function.update σ.beats i none }
  | dropBeat (i) : Happens σ (.dropBeat i) { σ with beats := Function.update σ.beats i none }
  | confirm (action i op db) (move : ConfirmMove σ i action op db) :
      Happens σ action { σ with db, confirms := Function.update σ.confirms i op }
  | worker (action w worker db) (move : WorkerMove σ w action (σ.workers w) worker db) :
      Happens σ action { σ with
        db, issued := σ.issued ∪ action.issues.toFinset
        workers := Function.update σ.workers w worker }
  | maintenance (action maintenance db)
      (move : MaintenanceMove σ action σ.maintenance maintenance db) :
      Happens σ action { σ with db, issued := σ.issued ∪ action.issues.toFinset, maintenance }

theorem happens {σ σ' : State} {action : Action} (stepped : metadata.step σ action = some σ') :
    Happens σ action σ' := by
  have taken : σ.step action = some σ' := stepped
  cases action with
  | tick elapsed =>
      simp only [State.step, Option.some.injEq] at taken
      exact taken ▸ .tick elapsed
  | request c owner command ident =>
      simp only [State.step] at taken
      split at taken
      · next fresh =>
          cases taken
          exact .request c owner command ident fresh
      · cases taken
  | requestBy c e request ident =>
      simp only [State.step] at taken
      split at taken
      · next fresh =>
          cases taken
          exact .requestBy c e request ident fresh
      · cases taken
  | beat i c nid inst volume capacity free =>
      simp only [State.step] at taken
      split at taken
      · next beat absent accepted =>
          cases taken
          exact .beat i c nid inst volume capacity free beat absent accepted
      · cases taken
        exact .refuse i c nid inst volume capacity free
      · cases taken
  | register i c =>
      simp only [State.step] at taken
      split at taken
      · next beat present =>
          split at taken
          · next db registered =>
              cases taken
              exact .register i c beat db present registered
          · cases taken
            exact .reject i c
      · cases taken
  | dropBeat i =>
      simp only [State.step, Option.some.injEq] at taken
      exact taken ▸ .dropBeat i
  | confirm | confirmAsk | confirmStat | confirmCommit | dropConfirm =>
      simp only [State.step] at taken
      obtain ⟨i, op, db, move, rfl⟩ := State.confirmStep_cases taken
      exact .confirm _ i op db move
  | claim | begin | sendRemove | removeDone | fetch | sendPut | putDone | sendStat | statDone
  | commit | raise | fail | crash =>
      simp only [State.step] at taken
      obtain ⟨w, worker, db, move, rfl⟩ := State.workerStep_cases taken
      exact .worker _ w worker db move
  | maintain | scan | visit | checkAsk | checkAnswer | reverify | page | review | skipNode
  | stopMaintenance =>
      simp only [State.step] at taken
      obtain ⟨maintenance, db, move, rfl⟩ := State.maintenanceStep_cases taken
      exact .maintenance _ maintenance db move

section Operations

variable {σ σ' : State} {action : Action}

/-- A step moves at most one `confirm`. -/
theorem Happens.confirms (happens : Happens σ action σ') (i : Nat) :
    σ'.confirms i = σ.confirms i ∨ ConfirmMove σ i action (σ'.confirms i) σ'.db := by
  cases happens with
  | confirm _ j op db move =>
      by_cases same : i = j
      · subst same
        exact .inr (by simpa using move)
      · exact .inl (Function.update_of_ne same _ _)
  | _ => exact .inl rfl

/-- A step moves at most one task thread. -/
theorem Happens.workers (happens : Happens σ action σ') (w : Nat) :
    σ'.workers w = σ.workers w ∨ WorkerMove σ w action (σ.workers w) (σ'.workers w) σ'.db := by
  cases happens with
  | worker _ v worker db move =>
      by_cases same : w = v
      · subst same
        exact .inr (by simpa using move)
      · exact .inl (Function.update_of_ne same _ _)
  | _ => exact .inl rfl

theorem Happens.maintenanceThread (happens : Happens σ action σ') :
    σ'.maintenance = σ.maintenance ∨
      MaintenanceMove σ action σ.maintenance σ'.maintenance σ'.db := by
  cases happens with
  | maintenance _ maintenance db move => exact .inr move
  | _ => exact .inl rfl

end Operations

end FileServer.Metadata
