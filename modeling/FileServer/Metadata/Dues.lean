import FileServer.Metadata.Invariant

/-!
# Tasks that are due

A task thread takes the task whose lease ends first.  Whatever it does with
one, no other task comes to be due earlier than it was.
-/

namespace FileServer.Metadata

open FileServer.Relational FileServer.Transition

namespace Database

variable {c : Config} {now limit : Time} {db db' db'' : Database} {key : TaskKey}

/-- The tasks a thread may take before any whose lease ends after the limit. -/
def due (limit : Time) (db : Database) : Finset TaskKey :=
  ((db.tasks.rows.filter fun entry =>
    entry.2.state ≠ .done ∧ entry.2.lease ≤ limit).map Prod.fst).toFinset

theorem mem_due : key ∈ db.due limit ↔
    ∃ row, db.tasks.get? key = some row ∧ row.state ≠ .done ∧ row.lease ≤ limit := by
  simp only [due, List.mem_toFinset, List.mem_map, List.mem_filter, Prod.exists,
    decide_eq_true_eq, Table.mem_rows_iff]
  constructor
  · rintro ⟨_, row, ⟨stored, open_, early⟩, rfl⟩
    exact ⟨row, stored, open_, early⟩
  · rintro ⟨row, stored, open_, early⟩
    exact ⟨key, row, ⟨stored, open_, early⟩, rfl⟩

theorem nextTask_first {row : TaskRow} (stored : db.tasks.get? key = some row)
    (waits : row.state ≠ .done) (early : row.lease < now) :
    ∃ task first, db.nextTask now = some task ∧ db.tasks.get? task = some first ∧
      first.state ≠ .done ∧ first.lease ≤ row.lease := by
  have total : Std.Total fun first second : TaskKey × TaskRow =>
      first.2.lease ≤ second.2.lease := ⟨fun first second => le_total _ _⟩
  have transitive : IsTrans (TaskKey × TaskRow) fun first second =>
      first.2.lease ≤ second.2.lease := ⟨fun _ _ _ => le_trans⟩
  have sorted := List.pairwise_insertionSort (fun first second : TaskKey × TaskRow =>
    first.2.lease ≤ second.2.lease) (db.tasks.rows.filter fun entry =>
      entry.2.state ≠ .done ∧ entry.2.lease < now)
  have listed : (key, row) ∈ (db.tasks.rows.filter fun entry =>
      entry.2.state ≠ .done ∧ entry.2.lease < now).insertionSort fun first second =>
        first.2.lease ≤ second.2.lease := by
    rw [List.mem_insertionSort, List.mem_filter]
    exact ⟨(Table.mem_rows_iff _).mpr stored, decide_eq_true ⟨waits, early⟩⟩
  generalize same : ((db.tasks.rows.filter fun entry =>
    entry.2.state ≠ .done ∧ entry.2.lease < now).insertionSort fun first second =>
      first.2.lease ≤ second.2.lease) = entries at sorted listed
  cases entries with
  | nil => cases listed
  | cons entry rest =>
      have inRows : entry ∈ db.tasks.rows.filter fun entry =>
          entry.2.state ≠ .done ∧ entry.2.lease < now := by
        rw [← List.mem_insertionSort fun first second : TaskKey × TaskRow =>
          first.2.lease ≤ second.2.lease, same]
        exact List.mem_cons_self
      obtain ⟨present, open_⟩ := List.mem_filter.mp inRows
      refine ⟨entry.1, entry.2, ?_, (Table.mem_rows_iff _).mp present,
        (of_decide_eq_true open_).1, ?_⟩
      · rw [nextTask, same]
        rfl
      · rcases List.mem_cons.mp listed with rfl | later
        · exact le_rfl
        · exact (List.pairwise_cons.mp sorted).1 _ later

structure Postponed (key : TaskKey) (limit : Time) (db db' : Database) : Prop where
  task : db'.tasks.get? key = db.tasks.get? key
  due : db'.due limit ⊆ db.due limit

namespace Postponed

theorem of_tasks (tasks : db'.tasks = db.tasks) : Postponed key limit db db' := by
  refine ⟨by rw [tasks], ?_⟩
  simp only [Database.due, tasks, Finset.Subset.refl]

theorem trans (earlier : Postponed key limit db db') (later : Postponed key limit db' db'') :
    Postponed key limit db db'' :=
  ⟨later.task.trans earlier.task, Finset.Subset.trans later.due earlier.due⟩

theorem modifyTask {other : TaskKey} (different : key ≠ other) (f : TaskRow → TaskRow)
    (late : ∀ row, (f row).state ≠ .done → (f row).lease ≤ limit →
      row.state ≠ .done ∧ row.lease ≤ limit) : Postponed key limit db (db.modifyTask other f) := by
  refine ⟨Table.get?_modify_of_ne _ _ different, fun task membership => ?_⟩
  obtain ⟨row, stored, open_, early⟩ := mem_due.mp membership
  rw [Database.modifyTask, Table.get?_modify] at stored
  split at stored
  · next same =>
      obtain ⟨old, before, rfl⟩ := Option.map_eq_some_iff.mp stored
      obtain ⟨waits, first⟩ := late old open_ early
      exact mem_due.mpr ⟨old, before, waits, first⟩
  · exact mem_due.mpr ⟨row, stored, open_, early⟩

theorem enqueue {kind : TaskKind} {cid : Ident} {nid : Option NodeId} {delay : Nat}
    (waits : key = ⟨kind, cid, nid⟩ →
      ∃ row, db.tasks.get? key = some row ∧ row.state ≠ .done)
    (late : limit < now) (delayed : delay ≠ 0) :
    Postponed key limit db (db.enqueue now kind cid nid delay) := by
  rw [enqueue_eq]
  refine ⟨?_, fun task membership => ?_⟩
  · rw [Table.get?_upsert]
    split
    · next same =>
        obtain ⟨row, stored, open_⟩ := waits same
        rw [← same, stored, Option.elim, if_neg open_]
    · rfl
  obtain ⟨row, stored, open_, early⟩ := mem_due.mp membership
  have beyond : limit < now + delay :=
    lt_of_lt_of_le late (Int.le_add_of_nonneg_right (Int.natCast_nonneg delay))
  rw [Table.get?_upsert] at stored
  split at stored
  · next same =>
      subst same
      cases before : db.tasks.get? ⟨kind, cid, nid⟩ with
      | none =>
          rw [before, Option.elim, Option.some.injEq] at stored
          subst stored
          dsimp only at early
          exact absurd early (not_le.mpr beyond)
      | some old =>
          rw [before, Option.elim, Option.some.injEq] at stored
          subst stored
          split at early
          · dsimp only at early
            exact absurd early (not_le.mpr beyond)
          · next active => exact mem_due.mpr ⟨old, before, active, early⟩
  · exact mem_due.mpr ⟨row, stored, open_, early⟩

end Postponed

theorem claim_due {task : TaskKey} {token : Ident} (late : limit < now) :
    task ∉ (db.claim c now task token).due limit := by
  intro membership
  obtain ⟨row, stored, _, early⟩ := mem_due.mp membership
  rw [claim, modifyTask, Table.get?_modify_self] at stored
  obtain ⟨old, _, rfl⟩ := Option.map_eq_some_iff.mp stored
  exact absurd early (not_le.mpr
    (lt_of_lt_of_le late (Int.le_add_of_nonneg_right (Int.natCast_nonneg c.lease))))

theorem claim_postponed {task : TaskKey} {token : Ident} (different : key ≠ task)
    (late : limit < now) : Postponed key limit db (db.claim c now task token) := by
  refine .modifyTask different _ fun row _ early => ?_
  exact absurd early (not_le.mpr
    (lt_of_lt_of_le late (Int.le_add_of_nonneg_right (Int.natCast_nonneg c.lease))))

end Database

theorem WorkerMove.postponed {σ : State} {w : Nat} {action : Action} {before after : Worker}
    {db : Database} {key : TaskKey} {limit : Time}
    (move : WorkerMove σ w action before after db)
    (waits : ∃ row, σ.db.tasks.get? key = some row ∧ row.state ≠ .done)
    (other : ∀ job, before.job? = some job → key ≠ job.task)
    (claimless : ∀ c token, action ≠ .claim w c token) (late : limit < σ.now) :
    Database.Postponed key limit σ.db db := by
  have finished : ∀ (db : Database) (job : Job), before.job? = some job →
      Database.Postponed key limit db (db.finishTask job) := by
    intro db job working
    refine .modifyTask (other job working) _ fun row open_ early => ?_
    split at open_
    · exact absurd rfl open_
    · next unowned =>
        rw [if_neg unowned] at early
        exact ⟨open_, early⟩
  cases move with
  | claim c token => exact absurd rfl (claimless c token)
  | deleteBegin c job deletion db deletes begun =>
      obtain ⟨_, _, _, _, _, _, _, rfl⟩ := Database.deleteBegin_ok begun
      exact .of_tasks rfl
  | repairBegin c job repair db _ begun =>
      obtain ⟨_, _, _, _, _, _, _, _, outcome⟩ := Database.repairBegin_ok begun
      rcases outcome with ⟨_, result, _⟩ | ⟨_, _, _, _, targeted, _⟩
      · cases result
      · rcases targeted.choice with ⟨_, _, _, rfl⟩ | ⟨_, _, _, _, _, rfl⟩
        · exact .of_tasks rfl
        · exact .of_tasks rfl
  | repairExit c job db _ begun =>
      obtain ⟨_, _, _, _, _, _, _, _, outcome⟩ := Database.repairBegin_ok begun
      rcases outcome with ⟨_, _, rfl⟩ | ⟨_, _, _, _, _, _, result⟩
      · exact finished _ job rfl
      · cases result
  | deleteCommit c job deletion db committed =>
      obtain ⟨_, uncharged, _, _, _, _, settled, rfl⟩ := Database.deleteCommit_ok committed
      have tasks : uncharged.tasks = σ.db.tasks := by
        subst settled
        cases deletion.length with
        | none => rfl
        | some length => simp [Database.uncharge_eq]
      exact (Database.Postponed.of_tasks (by exact tasks)).trans (finished _ job rfl)
  | repairCommit c job repair db committed =>
      obtain ⟨_, _, _, copied, _, _, _, _, _, _, _, _, _, outcome, rfl⟩ :=
        Database.repairCommit_ok committed
      refine Database.Postponed.trans ?_ (.modifyTask (other job rfl) _ fun row open_ early => ?_)
      · rcases outcome with ⟨_, rfl⟩ | ⟨_, rfl⟩
        · have tasks : ((σ.db.uncharge job.task.chunk repair.target repair.length).modifyReplica
              job.task.chunk repair.target fun row => { row with state := .bad }).tasks =
                σ.db.tasks := by
            simp [Database.uncharge_eq, Database.modifyReplica]
          exact Database.Postponed.trans (.of_tasks tasks)
            (.enqueue (fun _ => by rw [tasks]; exact waits) late (by omega))
        · exact .of_tasks (by simp [Database.settle_eq])
      · split at open_
        · exact absurd rfl open_
        · next unowned =>
            rw [if_neg unowned] at early
            exact ⟨open_, early⟩
  | fail job reason =>
      refine .modifyTask (other job rfl) _ fun row open_ early => ?_
      split at early
      · exact absurd early (not_le.mpr (lt_of_lt_of_le late (Int.le_add_of_nonneg_right (by decide))))
      · next unowned =>
          rw [if_neg unowned] at open_
          exact ⟨open_, early⟩
  | _ => exact .of_tasks rfl

end FileServer.Metadata
