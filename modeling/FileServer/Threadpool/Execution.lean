import FileServer.Threadpool.Draining
import Mathlib.Data.List.Perm.Basic

/-!
# The tasks of a thread pool

The tasks that `Submit` accepts are taken from the queue in their order, and
each is executed once.
-/

namespace FileServer.Threadpool

open FileServer.Transition
open scoped List

universe u v

variable {Task : Type u} {Value : Type v}

/-- The task that `Submit` queues. -/
def accepts (event : Event (Usage Task Value) (Action Task Value)) : List (PackagedTask Task) :=
  match event.action with
  | .submit task =>
      match (event.before.submit task).1 with
      | .ok serial => [⟨serial, task⟩]
      | .error _ => []
  | _ => []

def takes (event : Event (Usage Task Value) (Action Task Value)) : List (PackagedTask Task) :=
  match event.action with
  | .workerLoop _ => event.before.pool.workerLoop.1.task?.toList
  | _ => []

def executes (event : Event (Usage Task Value) (Action Task Value)) :
    List (PackagedTask Task × Result Value) :=
  match event.action with
  | .finish worker result =>
      (event.before.pool.workers[worker]?.bind Worker.task?).toList.map (·, result)
  | _ => []

variable {history : List (Event (Usage Task Value) (Action Task Value))}
  {usage after : Usage Task Value} {action : Action Task Value}

theorem accepts_submit {task : Task} (running : usage.pool.running = true) :
    accepts ⟨usage, .submit task, after⟩ = [⟨usage.packaged, task⟩] := by
  simp [accepts, Usage.submit, ThreadPool.submit, running]

theorem accepts_refused {task : Task} (stopped : usage.pool.running = false) :
    accepts ⟨usage, .submit task, after⟩ = [] := by
  simp [accepts, Usage.submit, ThreadPool.submit, stopped]

theorem takes_task {worker : Nat} {task : PackagedTask Task} {rest : List (PackagedTask Task)}
    (queued : usage.pool.tasks = task :: rest) :
    takes ⟨usage, .workerLoop worker, after⟩ = [task] := by
  simp [takes, ThreadPool.workerLoop, queued, Worker.task?]

theorem takes_nothing {worker : Nat} (empty : usage.pool.tasks = []) :
    takes ⟨usage, .workerLoop worker, after⟩ = [] := by
  cases running : usage.pool.running with
  | false => simp [takes, ThreadPool.workerLoop, empty, running, Worker.task?]
  | true => simp [takes, ThreadPool.workerLoop, empty, running, Worker.task?]

theorem executes_finish {worker : Nat} {task : PackagedTask Task} {result : Result Value}
    (here : usage.pool.workers[worker]? = some (.executing task)) :
    executes ⟨usage, .finish worker result, after⟩ = [(task, result)] := by
  simp [executes, here, Worker.task?]

theorem ThreadPool.underWay_notify (pool : ThreadPool Task) :
    ThreadPool.underWay { pool with workers := pool.workers.map Worker.notify } =
      pool.underWay := by
  rw [underWay, List.filterMap_map]
  apply List.filterMap_congr
  intro worker _
  cases worker <;> rfl

theorem inserted (task : PackagedTask Task) (front back : List (PackagedTask Task)) :
    (front ++ [task] ++ back).Perm (task :: (front ++ back)) := by
  rw [List.append_assoc]
  exact List.perm_middle

structure Accounted (history : List (Event (Usage Task Value) (Action Task Value)))
    (usage : Usage Task Value) : Prop where
  queued : recorded accepts history = recorded takes history ++ usage.pool.tasks
  handled : (recorded takes history).Perm
    ((recorded executes history).map Prod.fst ++ usage.pool.underWay)
  received : usage.futures = (recorded executes history).map fun entry => (entry.1.serial, entry.2)
  ordered : (recorded accepts history).Pairwise fun first second => first.serial < second.serial
  numbered : ∀ task ∈ recorded accepts history, task.serial < usage.packaged
  proceeds : usage.terminated = false

namespace Accounted

theorem start (numThreads hardwareConcurrency : Nat) :
    Accounted [] (uses Task Value numThreads hardwareConcurrency).initial where
  queued := rfl
  handled := by
    simp [uses, ThreadPool.construct, ThreadPool.underWay, List.filterMap_replicate, Worker.task?]
  received := rfl
  ordered := .nil
  numbered := fun task membership => by cases membership
  proceeds := rfl

/-- A step that leaves the tasks alone. -/
theorem frame (accounted : Accounted history usage)
    (accepted : accepts ⟨usage, action, after⟩ = []) (taken : takes ⟨usage, action, after⟩ = [])
    (executed : executes ⟨usage, action, after⟩ = []) (tasks : after.pool.tasks = usage.pool.tasks)
    (underWay : after.pool.underWay = usage.pool.underWay) (futures : after.futures = usage.futures)
    (packaged : usage.packaged ≤ after.packaged) (proceeds : after.terminated = usage.terminated) :
    Accounted (⟨usage, action, after⟩ :: history) after where
  queued := by simpa [accepted, taken, tasks] using accounted.queued
  handled := by simpa [taken, executed, underWay] using accounted.handled
  received := by simpa [executed, futures] using accounted.received
  ordered := by simpa [accepted] using accounted.ordered
  numbered := by
    intro task membership
    simp only [recorded_cons, accepted, List.append_nil] at membership
    exact Nat.lt_of_lt_of_le (accounted.numbered task membership) packaged
  proceeds := proceeds.trans accounted.proceeds

theorem distinct (accounted : Accounted history usage) :
    (((recorded executes history).map Prod.fst ++ usage.pool.underWay).map
      PackagedTask.serial).Nodup := by
  apply (accounted.handled.map PackagedTask.serial).nodup_iff.mp
  have ordered := accounted.ordered
  rw [accounted.queued] at ordered
  apply List.pairwise_map.mpr
  exact (List.pairwise_append.mp ordered).1.imp Nat.ne_of_lt

theorem first (accounted : Accounted history usage) {worker : Nat} {task : PackagedTask Task}
    (here : usage.pool.workers[worker]? = some (.executing task)) :
    task.serial ∉ usage.futures.map Prod.fst := by
  intro again
  rw [accounted.received, List.map_map] at again
  obtain ⟨entry, membership, same⟩ := List.mem_map.mp again
  have inWork : task ∈ usage.pool.underWay :=
    List.mem_filterMap.mpr ⟨_, List.mem_of_getElem? here, rfl⟩
  have distinct := accounted.distinct
  rw [List.map_append, List.nodup_append] at distinct
  refine distinct.2.2 entry.1.serial ?_ task.serial (List.mem_map_of_mem inWork) same
  rw [List.map_map]
  exact List.mem_map_of_mem membership

theorem next (accounted : Accounted history usage) (effect : Effect usage action after) :
    Accounted (⟨usage, action, after⟩ :: history) after := by
  have idle : ∀ {index : Nat} {old new : Worker Task},
      usage.pool.workers[index]? = some old → old.task? = none → new.task? = none →
      (usage.pool.put index new).underWay = usage.pool.underWay := by
    intro index old new here before later
    obtain ⟨front, back, whole, changed⟩ := ThreadPool.underWay_put here new
    rw [whole, changed, before, later]
  cases effect with
  | @accepted task running =>
      refine ⟨?_, ?_, ?_, ?_, ?_, accounted.proceeds⟩
      · rw [recorded_cons, recorded_cons, accepts_submit running, accounted.queued,
          List.append_assoc]
        simp [takes]
      · simp only [recorded_cons, takes, executes, List.append_nil]
        exact accounted.handled
      · simpa [executes] using accounted.received
      · rw [recorded_cons, accepts_submit running]
        refine List.pairwise_append.mpr ⟨accounted.ordered, List.pairwise_singleton _ _, ?_⟩
        intro before membership last isLast
        obtain rfl := List.mem_singleton.mp isLast
        exact accounted.numbered before membership
      · rw [recorded_cons, accepts_submit running]
        intro before membership
        rcases List.mem_append.mp membership with older | isLast
        · exact Nat.lt_succ_of_lt (accounted.numbered before older)
        · obtain rfl := List.mem_singleton.mp isLast
          exact Nat.lt_succ_self _
  | refused stopped =>
      exact accounted.frame (accepts_refused stopped) rfl rfl rfl rfl rfl (Nat.le_succ _) rfl
  | notified due here =>
      exact accounted.frame rfl rfl rfl rfl (idle here rfl rfl) rfl (Nat.le_refl _) rfl
  | unheard due nobody =>
      exact accounted.frame rfl rfl rfl rfl rfl rfl (Nat.le_refl _) rfl
  | waited here running empty =>
      exact accounted.frame rfl (takes_nothing empty) rfl rfl (idle here rfl rfl) rfl
        (Nat.le_refl _) rfl
  | exited here stopped empty =>
      exact accounted.frame rfl (takes_nothing empty) rfl rfl (idle here rfl rfl) rfl
        (Nat.le_refl _) rfl
  | @took worker task rest here queued =>
      obtain ⟨front, back, whole, changed⟩ := @ThreadPool.underWay_put Task
        { usage.pool with tasks := rest } _ _ here (.executing task)
      refine ⟨?_, ?_, ?_, ?_, ?_, accounted.proceeds⟩
      · rw [recorded_cons, recorded_cons, takes_task queued, accounted.queued, queued]
        simp [accepts]
      · rw [recorded_cons, recorded_cons, takes_task queued, changed]
        simp only [executes, List.append_nil]
        have before : usage.pool.underWay = front ++ [] ++ back := whole
        rw [List.append_nil] at before
        calc recorded takes history ++ [task]
          _ ~ (recorded executes history).map Prod.fst ++ usage.pool.underWay ++ [task] :=
              accounted.handled.append_right _
          _ ~ (recorded executes history).map Prod.fst ++ task :: (front ++ back) := by
              rw [before, List.append_assoc]
              exact (List.perm_append_singleton _ _).append_left _
          _ ~ _ := (inserted task front back).symm.append_left _
      · simpa [executes] using accounted.received
      · simpa [accepts] using accounted.ordered
      · simpa [accepts] using accounted.numbered
  | @finished worker task result here first =>
      obtain ⟨front, back, whole, changed⟩ := ThreadPool.underWay_put here .ready
      refine ⟨?_, ?_, ?_, ?_, ?_, accounted.proceeds⟩
      · simpa [accepts, takes] using accounted.queued
      · rw [recorded_cons, recorded_cons, executes_finish here, changed]
        simp only [takes, List.append_nil, List.map_append, List.map_cons, List.map_nil]
        calc recorded takes history
          _ ~ (recorded executes history).map Prod.fst ++ usage.pool.underWay := accounted.handled
          _ ~ (recorded executes history).map Prod.fst ++ task :: (front ++ back) := by
              rw [whole]
              exact (inserted task front back).append_left _
          _ ~ _ := by simp [Worker.task?]
      · rw [recorded_cons, executes_finish here, List.map_append, ← accounted.received]
        rfl
      · simpa [accepts] using accounted.ordered
      · simpa [accepts] using accounted.numbered
  | repeated here again => exact absurd again (accounted.first here)
  | woken here => exact accounted.frame rfl rfl rfl rfl (idle here rfl rfl) rfl (Nat.le_refl _) rfl
  | stopped uncalled => exact accounted.frame rfl rfl rfl rfl rfl rfl (Nat.le_refl _) rfl
  | notifiedAll notifying =>
      exact accounted.frame rfl rfl rfl rfl (ThreadPool.underWay_notify _) rfl (Nat.le_refl _) rfl
  | joined joining here => exact accounted.frame rfl rfl rfl rfl rfl rfl (Nat.le_refl _) rfl
  | returned joining here => exact accounted.frame rfl rfl rfl rfl rfl rfl (Nat.le_refl _) rfl

end Accounted

section Runs

variable {numThreads hardwareConcurrency : Nat}

theorem valid_of_run (run : Run (uses Task Value numThreads hardwareConcurrency) history usage) :
    Valid usage :=
  run.invariant Valid (.construct _ _) fun _ _ _ valid stepped =>
    valid.next (effect_of_step stepped)

theorem accounted_of_run
    (run : Run (uses Task Value numThreads hardwareConcurrency) history usage) :
    Accounted history usage :=
  run.historyInvariant Accounted (.start _ _) fun _ _ _ _ _ accounted stepped =>
    accounted.next (effect_of_step stepped)

theorem lowers : (uses Task Value numThreads hardwareConcurrency).Lowers Action.Internal
    (Reachable (uses Task Value numThreads hardwareConcurrency)) Usage.remaining where
  keeps := fun _ _ _ reached _ stepped => reached.next stepped
  lowers := by
    intro before action after reached kind stepped
    obtain ⟨history, run⟩ := reached.next stepped
    exact (effect_of_step stepped).lowers kind (accounted_of_run run).proceeds

theorem submit_of_stopped (stopped : usage.pool.running = false) (task : Task) :
    usage.submit task = (.error "ThreadPool 已停止，无法提交新任务",
      { usage with packaged := usage.packaged + 1 }) := by
  simp [Usage.submit, ThreadPool.submit, stopped, Except.isOk, Except.toBool]

theorem Effect.keeps_pool {task : Task} (effect : Effect usage (.submit task) after)
    (stopped : usage.pool.running = false) : after.pool = usage.pool := by
  cases effect with
  | accepted running => cases stopped.symm.trans running
  | refused => rfl

theorem Effect.stops (effect : Effect usage .shutdown after) : after.pool.running = false := by
  cases effect with
  | stopped => rfl

theorem Effect.stays_stopped (effect : Effect usage action after)
    (stopped : usage.pool.running = false) : after.pool.running = false := by
  cases effect with
  | stopped => rfl
  | accepted | refused | notified | unheard | waited | exited | took | finished | repeated | woken
  | notifiedAll | joined | returned => exact stopped

/-- It is stopped from the moment its destructor takes the mutex. -/
theorem stopped_since {later earlier : List (Event (Usage Task Value) (Action Task Value))}
    {before after : Usage Task Value}
    (run : Run (uses Task Value numThreads hardwareConcurrency)
      (later ++ ⟨before, .shutdown, after⟩ :: earlier) usage) :
    usage.pool.running = false ∧ ∀ event ∈ later, event.before.pool.running = false := by
  apply run.since fun state => state.pool.running = false
  · obtain ⟨_, stepped⟩ := run.event (List.mem_append_right _ List.mem_cons_self)
    exact (effect_of_step stepped).stops
  · intro event membership stopped
    obtain ⟨_, stepped⟩ := run.event (List.mem_append_left _ membership)
    exact (effect_of_step stepped).stays_stopped stopped

/-- However its calls, its threads and its destructor interleave, a thread pool
takes the tasks that `Submit` accepts in their order and executes each of them
once, whatever the others throw; once its destructor has begun `Submit` throws
and queues nothing; no thread leaves while a task is queued, and when the
destructor returns all tasks have been executed.  The steps of the pool come to
an end, and then all tasks have been executed too. -/
theorem tasks_executed_once
    (run : Run (uses Task Value numThreads hardwareConcurrency) history usage) :
    usage.terminated = false ∧
    recorded accepts history = recorded takes history ++ usage.pool.tasks ∧
    (recorded accepts history).Pairwise (fun first second => first.serial < second.serial) ∧
    (recorded takes history).Perm
      ((recorded executes history).map Prod.fst ++ usage.pool.underWay) ∧
    usage.futures = (recorded executes history).map (fun entry => (entry.1.serial, entry.2)) ∧
    (∀ later stopped earlier, history = later ++ stopped :: earlier → stopped.action = .shutdown →
      ∀ event ∈ later, ∀ task, event.action = .submit task →
        (∃ message, (event.before.submit task).1 = .error message) ∧
          event.after.pool = event.before.pool) ∧
    (.exited ∈ usage.pool.workers → usage.pool.tasks = []) ∧
    (usage.destructor = .returned →
      ((recorded executes history).map Prod.fst).Perm (recorded accepts history)) ∧
    (∀ actions last, (∀ action ∈ actions, action.Internal) →
      (uses Task Value numThreads hardwareConcurrency).execute usage actions = some last →
        actions.length ≤ usage.remaining) ∧
    ((∀ action : Action Task Value, action.Internal → usage.step action = none) →
      ((recorded executes history).map Prod.fst).Perm (recorded accepts history) ∧
        (usage.pool.running = false → usage.destructor = .returned)) := by
  have valid := valid_of_run run
  have accounted := accounted_of_run run
  have finished : usage.pool.tasks = [] → usage.pool.underWay = [] →
      ((recorded executes history).map Prod.fst).Perm (recorded accepts history) := by
    intro empty idle
    have handled := accounted.handled
    rw [idle, List.append_nil] at handled
    rw [accounted.queued, empty, List.append_nil]
    exact handled.symm
  refine ⟨accounted.proceeds, accounted.queued, accounted.ordered, accounted.handled,
    accounted.received, ?_, ?_, ?_, ?_, ?_⟩
  · rintro later ⟨before, _, after⟩ earlier rfl rfl event membership task submits
    have stopped : event.before.pool.running = false := (stopped_since run).2 event membership
    obtain ⟨_, stepped⟩ := run.event (List.mem_append_left _ membership)
    rcases event with ⟨current, _, next⟩
    obtain rfl : _ = Action.submit task := submits
    refine ⟨⟨_, congrArg Prod.fst (submit_of_stopped stopped task)⟩, ?_⟩
    exact (effect_of_step stepped).keeps_pool stopped
  · exact fun left => (valid.drained .exited left rfl).2
  · intro returned
    have all : ∀ worker ∈ usage.pool.workers, worker = .exited := by
      intro worker membership
      obtain ⟨index, here⟩ := List.mem_iff_getElem?.mp membership
      have inRange := (List.getElem?_eq_some_iff.mp here).1
      have left := valid.joined index (returned.symm ▸ inRange)
      exact Option.some.inj (here.symm.trans left)
    obtain ⟨worker, membership⟩ := List.exists_mem_of_length_pos valid.staffed
    apply finished (valid.drained worker membership (all worker membership)).2
    apply List.filterMap_eq_nil_iff.mpr
    intro worker membership
    rw [all worker membership]
    rfl
  · intro actions last kinds executed
    exact Nat.le_of_add_right_le (lowers.length_le run.reachable kinds executed)
  · intro stuck
    obtain ⟨empty, idle, closed⟩ := valid.idle accounted.proceeds stuck
    exact ⟨finished empty idle, closed⟩

theorem tasks_executed_once_throwing :
    ∃ history usage, Run (uses Nat Nat 2 0) history usage ∧ usage.destructor = .returned ∧
      usage.futures = [(1, .ok 8), (0, .error "failed")] ∧
      ((recorded executes history).map Prod.fst).Perm (recorded accepts history) := by
  have run := (uses Nat Nat 2 0).run
    [.submit 7, .workerLoop 0, .notifyOne none, .workerLoop 1, .submit 8, .notifyOne (some 1),
      .workerLoop 1, .shutdown, .submit 9, .finish 1 (.ok 8), .notifyAll, .workerLoop 1,
      .finish 0 (.error "failed"), .workerLoop 0, .join, .join, .join] (by decide +kernel)
  refine ⟨_, _, run, by decide +kernel, by decide +kernel, ?_⟩
  exact (tasks_executed_once run).2.2.2.2.2.2.2.1 (by decide +kernel)

end Runs

end FileServer.Threadpool
