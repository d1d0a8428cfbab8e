import FileServer.Metadata.Keys
import FileServer.Metadata.TaskMoves
import FileServer.Metadata.Threads

/-!
# The invariant of the service

Each action makes the moves of at most one transaction and changes at most one
operation.  The operations keep what they learned, because the tables only
grow; so the invariant of the tables and the knowledge of every operation hold
in every reachable state.
-/

namespace FileServer.Metadata

open FileServer.Relational FileServer.Transition

namespace Worker

structure Known (db : Database) (issued : Finset Ident) (worker : Worker) : Prop where
  job : ∀ job, worker.job? = some job → job.task.chunk ∈ issued ∧ job.token ∈ issued
  deletion : ∀ job deletion, worker.deletion? = some (job, deletion) →
    job.task.kind = .delete ∧ job.task.node = some deletion.node ∧
      deletion.Known db job.task.chunk
  repair : ∀ job repair, worker.repair? = some (job, repair) →
    job.task.kind = .repair ∧ repair.Known db job.task.chunk

/-- The second thread state knows no more than the first. -/
structure Forgets (worker worker' : Worker) : Prop where
  job : ∀ job, worker'.job? = some job → worker.job? = some job
  deletion : ∀ known, worker'.deletion? = some known → worker.deletion? = some known
  repair : ∀ known, worker'.repair? = some known → worker.repair? = some known

variable {db db' : Database} {issued issued' : Finset Ident} {worker worker' : Worker}

theorem Forgets.refl (worker : Worker) : worker.Forgets worker :=
  ⟨fun _ => id, fun _ => id, fun _ => id⟩

theorem Forgets.idle (worker : Worker) : worker.Forgets .idle :=
  ⟨by simp [job?], by simp [deletion?], by simp [repair?]⟩

theorem Forgets.failing {job : Job} (working : worker.job? = some job) (reason : String) :
    worker.Forgets (.failing job reason) :=
  ⟨fun _ same => same ▸ working, by simp [deletion?], by simp [repair?]⟩

theorem Known.idle : Known db issued .idle :=
  ⟨by simp [job?], by simp [deletion?], by simp [repair?]⟩

theorem Known.forget (known : worker.Known db issued) (forgets : worker.Forgets worker') :
    worker'.Known db issued where
  job := fun job same => known.job job (forgets.job job same)
  deletion := fun job deletion same => known.deletion job deletion (forgets.deletion _ same)
  repair := fun job repair same => known.repair job repair (forgets.repair _ same)

theorem deletion_job {job : Job} {deletion : Deletion}
    (deletes : worker.deletion? = some (job, deletion)) : worker.job? = some job := by
  cases worker <;> simp_all [deletion?, job?]

theorem Known.grown (known : worker.Known db issued) {drawn : List Ident}
    (grown : Grown drawn db db') (fresh : ∀ id ∈ drawn, id ∉ issued) (more : issued ⊆ issued') :
    worker.Known db' issued' where
  job := fun job same => ⟨more (known.job job same).1, more (known.job job same).2⟩
  deletion := by
    intro job deletion deletes
    obtain ⟨kind, node, facts⟩ := known.deletion job deletion deletes
    exact ⟨kind, node, facts.grown grown fun membership =>
      fresh _ membership (known.job job (deletion_job deletes)).1⟩
  repair := by
    intro job repair repairs
    obtain ⟨kind, facts⟩ := known.repair job repair repairs
    exact ⟨kind, facts.grown grown⟩

end Worker

namespace Maintenance

/-- What the maintenance thread knows of the nodes, chunks and files it read. -/
structure Known (db : Database) (issued : Finset Ident) (maintenance : Maintenance) : Prop where
  views : ∀ view ∈ maintenance.views, db.Seen view.node view.inst
  pending : ∀ check ∈ maintenance.pending, check.Known db
  files : ∀ id ∈ maintenance.files, id ∈ issued

/-- The second thread state knows no more than the first. -/
structure Forgets (maintenance maintenance' : Maintenance) : Prop where
  views : maintenance'.views ⊆ maintenance.views
  pending : maintenance'.pending ⊆ maintenance.pending
  files : maintenance'.files ⊆ maintenance.files

variable {db db' : Database} {issued issued' : Finset Ident} {maintenance maintenance' : Maintenance}

theorem Known.forget (known : maintenance.Known db issued)
    (forgets : maintenance.Forgets maintenance') : maintenance'.Known db issued where
  views := fun view membership => known.views view (forgets.views membership)
  pending := fun check membership => known.pending check (forgets.pending membership)
  files := fun id membership => known.files id (forgets.files membership)

theorem Known.grown (known : maintenance.Known db issued) {drawn : List Ident}
    (grown : Grown drawn db db') (more : issued ⊆ issued') : maintenance.Known db' issued' where
  views := fun view membership => grown.seen _ _ (known.views view membership)
  pending := fun check membership => (known.pending check membership).grown grown
  files := fun id membership => more (known.files id membership)

theorem Known.idle : Known db issued .idle :=
  ⟨by simp [Maintenance.views], by simp [Maintenance.pending], by simp [Maintenance.files]⟩

end Maintenance

inductive Focuses (σ : State) : Action → Focus → Prop where
  | none (action) : Focuses σ action .none
  | request (c owner command ident focus) (focused : command.Focuses σ.db owner focus) :
      Focuses σ (.request c owner command ident) focus
  | requestBy (c e request ident focus)
      (move : KeyMove e c σ.now σ.db ident request focus
        (σ.outcome (σ.db.dispatchBy e.toEngine c σ.now ident request))) :
      Focuses σ (.requestBy c e request ident) focus
  | claim (w c token task row) (idle : σ.workers w = .idle) (next : σ.db.nextTask σ.now = some task)
      (stored : σ.db.tasks.get? task = some row) (fresh : token ∉ σ.issued) :
      Focuses σ (.claim w c token) (.claim task (Database.claimed c σ.now token row))
  | exit (w c job db) (claimed : σ.workers w = .claimed job) (repairs : job.task.kind = .repair)
      (exited : σ.db.repairBegin c σ.now job = .ok (none, db)) :
      Focuses σ (.begin w c) (.exit job.task)
  | review (c view cid ids last more views)
      (listing : σ.maintenance = .listing view (cid :: ids) last more views) :
      Focuses σ (.review c) (.review cid)
  | register (i c beat db) (present : σ.beats i = some beat)
      (registered : σ.db.register c beat = .ok db) :
      Focuses σ (.register i c) (.register beat.node)
  | confirm (i c op bytes db) (present : σ.confirms i = some op) (finished : op.left = [])
      (committed : σ.db.confirmCommit c σ.now op = .ok (bytes, db)) :
      Focuses σ (.confirmCommit i c) (.settle op.chunk (op.positions.map Position.node))
  | repair (w c job repair db) (verified : σ.workers w = .verified job repair)
      (repairs : job.task.kind = .repair)
      (committed : σ.db.repairCommit c σ.now job repair = .ok db) :
      Focuses σ (.commit w c) (.settle job.task.chunk [repair.target])
  | verdict (view check valid left views db)
      (answered : σ.maintenance = .judged view check valid left views)
      (judged : σ.db.reverify view check valid = .ok db) :
      Focuses σ .reverify (.verdict check.chunk view.node valid)

theorem Steps.issued {focus : Focus} {drawn : List Ident} {db db' : Database}
    {issued : Finset Ident} (steps : Steps focus drawn db db')
    (covered : ∀ id ∈ drawn, id ∈ issued) (reviewed : ∀ file, focus = .review file → file ∈ issued)
    (chunks : ∀ cid chunk, db.chunks.get? cid = some chunk → cid ∈ issued)
    (tasks : ∀ key task, db.tasks.get? key = some task → key.chunk ∈ issued) :
    (∀ cid chunk, db'.chunks.get? cid = some chunk → cid ∈ issued) ∧
      ∀ key task, db'.tasks.get? key = some task → key.chunk ∈ issued := by
  induction steps with
  | refl => exact ⟨chunks, tasks⟩
  | @tail middle next _ moves inductionHypothesis =>
      have known : ∀ cid chunk, next.chunks.get? cid = some chunk → cid ∈ issued := by
        intro cid chunk stored
        cases before : middle.chunks.get? cid with
        | some old => exact inductionHypothesis.1 cid old before
        | none =>
            obtain ⟨_, _, _, _, _, creation, seq, inRange, rfl⟩ :=
              moves.life.newChunk before stored
            exact covered _ (creation.freshChunk seq inRange).2
      refine ⟨known, fun key task stored => ?_⟩
      have move := moves.tasks key
      rw [stored] at move
      generalize before : middle.tasks.get? key = old at move
      cases move with
      | keep | claim | fail | finish => exact inductionHypothesis.2 key _ before
      | enqueue _ _ free pending named published =>
          rcases named with phase | review
          · obtain ⟨state, phase⟩ := Option.ne_none_iff_exists'.mp phase
            obtain ⟨chunk, _, _, located, _⟩ := Database.phase_eq_some.mp phase
            exact known _ chunk located
          · exact reviewed _ review

namespace State

/-- A request that is refused moves nothing. -/
theorem keyMove {σ : State} (consistent : Consistent σ.db) (c : Config) (e : StrictEngine)
    (request : Internal) (ident : Nat → Ident) :
    ∃ focus, KeyMove e c σ.now σ.db ident request focus
      (σ.outcome (σ.db.dispatchBy e.toEngine c σ.now ident request)) := by
  cases dispatched : σ.db.dispatchBy e.toEngine c σ.now ident request with
  | ok result => exact KeyMove.of_dispatchBy consistent dispatched
  | error failure => exact ⟨.none, .same⟩

structure Invariant (σ : State) : Prop where
  consistent : Consistent σ.db
  chunks : ∀ cid chunk, σ.db.chunks.get? cid = some chunk → cid ∈ σ.issued
  tasks : ∀ key task, σ.db.tasks.get? key = some task → key.chunk ∈ σ.issued
  confirms : ∀ i op, σ.confirms i = some op → op.Known σ.db
  workers : ∀ w, (σ.workers w).Known σ.db σ.issued
  maintenance : σ.maintenance.Known σ.db σ.issued

/-- What one action does to the parts the invariant speaks of. -/
structure Effect (σ σ' : State) (focus : Focus) (drawn : List Ident) : Prop where
  steps : Steps focus drawn σ.db σ'.db
  fresh : ∀ id ∈ drawn, id ∉ σ.issued
  issued : σ.issued ⊆ σ'.issued
  covered : ∀ id ∈ drawn, id ∈ σ'.issued
  reviewed : ∀ file, focus = .review file → file ∈ σ.issued
  confirms : ∀ i op, σ'.confirms i = some op → (∃ old, σ.confirms i = some old ∧
    op.chunk = old.chunk ∧ op.upload = old.upload ∧ op.length = old.length ∧ op.sha = old.sha ∧
      op.positions = old.positions) ∨ op.Known σ'.db
  workers : ∀ w, (σ.workers w).Forgets (σ'.workers w) ∨ (σ'.workers w).Known σ'.db σ'.issued
  maintenance : σ.maintenance.Forgets σ'.maintenance ∨ σ'.maintenance.Known σ'.db σ'.issued

theorem Effect.invariant {σ σ' : State} {focus : Focus} {drawn : List Ident}
    (effect : Effect σ σ' focus drawn) (invariant : Invariant σ) : Invariant σ' where
  consistent := effect.steps.consistent invariant.consistent
  chunks := (effect.steps.issued effect.covered
    (fun file same => effect.issued (effect.reviewed file same))
    (fun cid chunk stored => effect.issued (invariant.chunks cid chunk stored))
    fun key task stored => effect.issued (invariant.tasks key task stored)).1
  tasks := (effect.steps.issued effect.covered
    (fun file same => effect.issued (effect.reviewed file same))
    (fun cid chunk stored => effect.issued (invariant.chunks cid chunk stored))
    fun key task stored => effect.issued (invariant.tasks key task stored)).2
  confirms := by
    intro i op stored
    rcases effect.confirms i op stored with
      ⟨old, before, chunk, upload, length, sha, positions⟩ | known
    · have known := (invariant.confirms i old before).grown effect.steps.grown
      constructor
      · rw [chunk, upload, length, sha]
        exact known.chunk
      · rw [positions]
        exact known.seen
    · exact known
  workers := by
    intro w
    rcases effect.workers w with forgets | known
    · exact ((invariant.workers w).grown effect.steps.grown effect.fresh effect.issued).forget forgets
    · exact known
  maintenance := by
    rcases effect.maintenance with forgets | known
    · exact (invariant.maintenance.grown effect.steps.grown effect.issued).forget forgets
    · exact known

section Effects

variable {σ : State} (invariant : Invariant σ)
include invariant

theorem workerMove_effect {w : Nat} {action : Action} {before worker : Worker} {db : Database}
    (move : WorkerMove σ w action before worker db) (here : σ.workers w = before) :
    ∃ focus, Focuses σ action focus ∧ (∀ file, focus ≠ .review file) ∧ Steps focus [] σ.db db ∧
      (before.Forgets worker ∨ worker.Known db (σ.issued ∪ action.issues.toFinset)) := by
  have known := here ▸ invariant.workers w
  cases move with
  | claim c token task next fresh =>
      obtain ⟨row, stored, due, _⟩ := Database.nextTask_eq_some next
      refine ⟨_, .claim w c token task row here next stored fresh, by simp,
        .single (Database.claim_moves token stored due), .inr ⟨?_, by simp [Worker.deletion?],
          by simp [Worker.repair?]⟩⟩
      intro job same
      cases same
      simp [Action.issues, invariant.tasks task row stored]
  | deleteBegin c job deletion db deletes begun =>
      obtain ⟨target, learned⟩ := Database.deleteBegin_known invariant.consistent begun
      have moves : Moves .none [] σ.db db :=
        Database.deleteBegin_moves invariant.consistent deletes begun
      have issued := known.job job rfl
      refine ⟨.none, .none _, by simp, .single moves, .inr ⟨?_, ?_, by simp [Worker.repair?]⟩⟩
      · intro job same
        cases same
        simpa [Action.issues] using issued
      · intro job deletion same
        cases same
        exact ⟨deletes, target, learned.grown moves.grown (by simp)⟩
  | repairBegin c job repair db repairs begun =>
      have issued := known.job job rfl
      refine ⟨.none, .none _, by simp,
        Database.repairBegin_copy invariant.consistent repairs begun,
        .inr ⟨?_, by simp [Worker.deletion?], ?_⟩⟩
      · intro job same
        cases same
        simpa [Action.issues] using issued
      · intro job repair same
        cases same
        exact ⟨repairs, Database.repairBegin_known begun⟩
  | repairExit c job db repairs begun =>
      exact ⟨_, .exit w c job db here repairs begun, by simp,
        .single (Database.repairBegin_exit repairs begun), .inl (.idle _)⟩
  | refuse c job reason => exact ⟨.none, .none _, by simp, .refl, .inl (.failing rfl reason)⟩
  | sendRemove | removeDone | fetched | lost | sendPut | putDone | sendStat | statDone =>
      exact ⟨.none, .none _, by simp, .refl, .inl ⟨fun _ => id, fun _ => id, fun _ => id⟩⟩
  | deleteCommit c job deletion db committed =>
      obtain ⟨deletes, target, learned⟩ := known.deletion job deletion rfl
      exact ⟨.none, .none _, by simp, Database.deleteCommit_steps invariant.consistent deletes
        target learned committed, .inl (.idle _)⟩
  | repairCommit c job repair db committed =>
      obtain ⟨repairs, learned⟩ := known.repair job repair rfl
      exact ⟨_, .repair w c job repair db here repairs committed, by simp,
        Database.repairCommit_steps invariant.consistent repairs learned committed, .inl (.idle _)⟩
  | abort c worker job reason working =>
      exact ⟨.none, .none _, by simp, .refl, .inl (.failing working reason)⟩
  | raise worker job text reason working =>
      exact ⟨.none, .none _, by simp, .refl, .inl (.failing working reason)⟩
  | fail job reason =>
      exact ⟨.none, .none _, by simp, .single (Database.failTask_moves job reason), .inl (.idle _)⟩
  | crash => exact ⟨.none, .none _, by simp, .refl, .inl (.idle _)⟩

theorem confirmMove_effect {i : Nat} {action : Action} {op : Option Confirming} {db : Database}
    (move : ConfirmMove σ i action op db) : ∃ focus, Focuses σ action focus ∧
      (∀ file, focus ≠ .review file) ∧ Steps focus [] σ.db db ∧
      ∀ new, op = some new → (∃ old, σ.confirms i = some old ∧ new.chunk = old.chunk ∧
        new.upload = old.upload ∧ new.length = old.length ∧ new.sha = old.sha ∧
        new.positions = old.positions) ∨ new.Known db := by
  cases move with
  | begin c upload owner seq op absent begun =>
      refine ⟨.none, .none _, by simp, .refl, fun new same => ?_⟩
      cases same
      exact .inr (Database.confirmBegin_known begun)
  | ask op present | stat op present =>
      refine ⟨.none, .none _, by simp, .refl, fun new same => ?_⟩
      cases same
      exact .inl ⟨op, present, rfl, rfl, rfl, rfl, rfl⟩
  | commit c op bytes db present finished committed =>
      exact ⟨_, .confirm i c op bytes db present finished committed, by simp,
        Database.confirmCommit_steps invariant.consistent (invariant.confirms i op present)
          committed, by simp⟩
  | refuse | abort | drop => exact ⟨.none, .none _, by simp, .refl, by simp⟩

theorem maintenanceMove_effect {action : Action} {before maintenance : Maintenance} {db : Database}
    (move : MaintenanceMove σ action before maintenance db) (here : σ.maintenance = before) :
    ∃ focus, Focuses σ action focus ∧ (∀ file, focus = .review file → file ∈ σ.issued) ∧
      Steps focus [] σ.db db ∧
      (before.Forgets maintenance ∨ maintenance.Known db (σ.issued ∪ action.issues.toFinset)) := by
  have known := here ▸ invariant.maintenance
  cases move with
  | maintain c =>
      exact ⟨.none, .none _, by simp, Database.maintain_steps invariant.consistent,
        .inl ⟨by simp [Maintenance.views], by simp [Maintenance.pending], by simp [Maintenance.files]⟩⟩
  | scan c =>
      refine ⟨.none, .none _, by simp, .refl, .inr ⟨?_, by simp [Maintenance.pending],
        by simp [Maintenance.files]⟩⟩
      intro view membership
      obtain ⟨⟨nid, node⟩, inRows, rfl⟩ := List.mem_map.mp membership
      exact .inl ⟨node, σ.db.nodes.mem_rows_iff.mp (List.mem_filter.mp inRows).1, rfl⟩
  | visit view views =>
      refine ⟨.none, .none _, by simp, .refl, .inr ⟨fun other membership =>
        known.views other membership, ?_, by simp [Maintenance.files]⟩⟩
      intro check membership
      obtain ⟨⟨⟨cid, nid⟩, row⟩, _, selected⟩ :=
        List.mem_filterMap.mp (List.mem_of_mem_take membership)
      simp only at selected
      split at selected
      · obtain ⟨chunk, stored, rfl⟩ := Option.map_eq_some_iff.mp selected
        exact ⟨chunk, stored, rfl⟩
      · cases selected
  | finish | checked | listed | turn | fault | ask | answer | broken | stop =>
      refine ⟨.none, .none _, by simp, .refl, .inl ⟨?_, ?_, ?_⟩⟩ <;>
        simp [Maintenance.views, Maintenance.pending, Maintenance.files]
  | skip maintenance view views visiting =>
      refine ⟨.none, .none _, by simp, .refl, .inl ⟨?_, by simp [Maintenance.pending],
        by simp [Maintenance.files]⟩⟩
      rw [visiting]
      exact List.subset_cons_self view views
  | reverify view check valid left views db judged =>
      refine ⟨_, .verdict view check valid left views db here judged, by simp,
        Database.reverify_steps invariant.consistent
          (known.pending check (by simp [Maintenance.pending])) judged, .inl ⟨fun _ => id, ?_,
          fun _ => id⟩⟩
      exact List.subset_cons_self check left
  | page view cursor views ids more =>
      refine ⟨.none, .none _, by simp, .refl, .inr ⟨fun other membership =>
        known.views other membership, by simp [Maintenance.pending], ?_⟩⟩
      intro id membership
      exact Finset.mem_union_right _ (List.mem_toFinset.mpr membership)
  | review c view cid ids last more views =>
      refine ⟨_, .review c view cid ids last more views here, ?_, Database.reviewFile_steps,
        .inl ⟨fun _ => id, fun _ => id, List.subset_cons_self cid ids⟩⟩
      intro file same
      cases same
      exact known.files cid (by simp [Maintenance.files])

/-- The transaction of one action and what its operation knows afterwards. -/
theorem step_effect {σ' : State} {action : Action} (happens : Happens σ action σ') :
    ∃ focus, Focuses σ action focus ∧ ∃ drawn, (drawn = [] ∨ drawn = action.issues) ∧
      Effect σ σ' focus drawn := by
  have forgets (w : Nat) : (σ.workers w).Forgets (σ.workers w) := .refl _
  have unchanged : σ.maintenance.Forgets σ.maintenance :=
    ⟨fun _ => id, fun _ => id, fun _ => id⟩
  have confirms {db : Database} (i : Nat) (op : Confirming) (stored : σ.confirms i = some op) :
      (∃ old, σ.confirms i = some old ∧ op.chunk = old.chunk ∧ op.upload = old.upload ∧
        op.length = old.length ∧ op.sha = old.sha ∧ op.positions = old.positions) ∨ op.Known db :=
    .inl ⟨op, stored, rfl, rfl, rfl, rfl, rfl⟩
  cases happens with
  | tick | beat | refuse | reject | dropBeat =>
      exact ⟨.none, .none _, [], .inl rfl, .refl, by simp, fun _ => id, by simp, by simp, confirms,
        fun w => .inl (forgets w), .inl unchanged⟩
  | request c owner command ident fresh =>
      have steps : ∃ focus, command.Focuses σ.db owner focus ∧
          Steps focus (command.drawn c ident) σ.db
            (σ.outcome (σ.db.dispatch c σ.now ident owner command)) := by
        cases dispatched : σ.db.dispatch c σ.now ident owner command with
        | ok result => exact Database.dispatch_steps invariant.consistent dispatched
        | error failure => exact ⟨.none, .none _, .refl⟩
      obtain ⟨focus, focused, steps⟩ := steps
      have quiet : ∀ file, focus ≠ .review file := by
        rintro file rfl
        cases focused
      exact ⟨focus, .request c owner command ident focus focused, command.drawn c ident, .inr rfl,
        steps, fresh.2, Finset.subset_union_left,
        fun id membership => Finset.mem_union_right _ (List.mem_toFinset.mpr membership),
        fun file same => absurd same (quiet file), confirms, fun w => .inl (forgets w),
        .inl unchanged⟩
  | requestBy c e request ident fresh =>
      obtain ⟨focus, move⟩ := keyMove invariant.consistent c e request ident
      exact ⟨focus, .requestBy c e request ident focus move, request.drawn c ident, .inr rfl,
        move.steps invariant.consistent, fresh.2, Finset.subset_union_left,
        fun id membership => Finset.mem_union_right _ (List.mem_toFinset.mpr membership),
        fun file same => absurd same (move.quiet file), confirms, fun w => .inl (forgets w),
        .inl unchanged⟩
  | register i c beat db present registered =>
      exact ⟨_, .register i c beat db present registered, [], .inl rfl,
        .single ((Database.register_ok registered).moves invariant.consistent), by simp,
        fun _ => id, by simp, by simp, confirms, fun w => .inl (forgets w), .inl unchanged⟩
  | confirm action i op db move =>
      obtain ⟨focus, focuses, other, steps, known⟩ := confirmMove_effect invariant move
      refine ⟨focus, focuses, [], .inl rfl, steps, by simp, fun _ => id, by simp,
        fun file same => absurd same (other file), ?_, fun w => .inl (forgets w), .inl unchanged⟩
      intro j new stored
      by_cases same : j = i
      · subst same
        exact known new (by simpa using stored)
      · exact confirms j new (by simpa [Function.update_of_ne same] using stored)
  | worker action w worker db move =>
      obtain ⟨focus, focuses, other, steps, known⟩ := workerMove_effect invariant move rfl
      refine ⟨focus, focuses, [], .inl rfl, steps, by simp, Finset.subset_union_left, by simp,
        fun file same => absurd same (other file), confirms, ?_, .inl unchanged⟩
      intro v
      by_cases same : v = w
      · subst same
        simpa using known
      · simp only [Function.update_of_ne same]
        exact .inl (forgets v)
  | maintenance action maintenance db move =>
      obtain ⟨focus, focuses, reviewed, steps, known⟩ := maintenanceMove_effect invariant move rfl
      exact ⟨focus, focuses, [], .inl rfl, steps, by simp, Finset.subset_union_left, by simp,
        reviewed, confirms, fun w => .inl (forgets w), known⟩

end Effects

theorem Invariant.initial : Invariant initial where
  consistent := .empty
  chunks := by simp [State.initial, Database.empty]
  tasks := by simp [State.initial, Database.empty]
  confirms := by simp [State.initial]
  workers := fun _ => .idle
  maintenance := .idle

theorem Invariant.step {σ σ' : State} {action : Action} (invariant : Invariant σ)
    (stepped : metadata.step σ action = some σ') : Invariant σ' := by
  obtain ⟨_, _, _, _, effect⟩ := step_effect invariant (happens stepped)
  exact effect.invariant invariant

end State

theorem reachable_invariant {σ : State} (reached : Reachable metadata σ) : σ.Invariant :=
  reached.invariant _ .initial fun _ _ _ invariant stepped => invariant.step stepped

theorem reachable_effect {σ σ' : State} {action : Action} (reached : Reachable metadata σ)
    (stepped : metadata.step σ action = some σ') :
    ∃ focus, Focuses σ action focus ∧ ∃ drawn, (drawn = [] ∨ drawn = action.issues) ∧
      State.Effect σ σ' focus drawn :=
  State.step_effect (reachable_invariant reached) (happens stepped)

end FileServer.Metadata
