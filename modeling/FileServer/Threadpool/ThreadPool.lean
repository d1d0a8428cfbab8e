import FileServer.Transition.Settling

/-!
# The thread pool

`ThreadPool` with its threads, the callers of `Submit` and the thread that
destroys it.  What is done with the mutex is one step; a notification, the
execution of a task and a `join` are steps of their own.
-/

namespace FileServer.Threadpool

open FileServer.Transition

universe u v

/-- A task that `Submit` has wrapped; the serial number stands for its address. -/
structure PackagedTask (Task : Type u) where
  serial : Nat
  task : Task
  deriving DecidableEq

/-- What a task returns, or the text of what it throws. -/
abbrev Result (Value : Type v) := Except String Value

inductive Worker (Task : Type u) where
  /-- It is to take the mutex and check the condition. -/
  | ready
  | waiting
  | executing (task : PackagedTask Task)
  | exited
  deriving DecidableEq

namespace Worker

variable {Task : Type u}

def task? : Worker Task → Option (PackagedTask Task)
  | .executing task => some task
  | _ => none

def isWaiting : Worker Task → Bool
  | .waiting => true
  | _ => false

def notify : Worker Task → Worker Task
  | .waiting => .ready
  | worker => worker

end Worker

structure ThreadPool (Task : Type u) where
  workers : List (Worker Task)
  tasks : List (PackagedTask Task)
  running : Bool
  deriving DecidableEq

namespace ThreadPool

variable {Task : Type u}

def construct (numThreads hardwareConcurrency : Nat) : ThreadPool Task :=
  let detected := if hardwareConcurrency = 0 then 4 else hardwareConcurrency
  let numThreads := if numThreads = 0 then detected else numThreads
  ⟨List.replicate numThreads .ready, [], true⟩

variable (pool : ThreadPool Task)

def submit (task : PackagedTask Task) : Except String Nat × ThreadPool Task :=
  if pool.running then
    (.ok task.serial, { pool with tasks := pool.tasks ++ [task] })
  else
    (.error "ThreadPool 已停止，无法提交新任务", pool)

def workerLoop : Worker Task × ThreadPool Task :=
  if pool.running ∧ pool.tasks.isEmpty then
    (.waiting, pool)
  else
    match pool.tasks with
    | [] => (.exited, pool)
    | task :: rest => (.executing task, { pool with tasks := rest })

def put (index : Nat) (worker : Worker Task) : ThreadPool Task :=
  { pool with workers := pool.workers.set index worker }

def underWay : List (PackagedTask Task) := pool.workers.filterMap Worker.task?

end ThreadPool

inductive Destructor where
  | uncalled
  | notifying
  | joining (next : Nat)
  | returned
  deriving DecidableEq

/-- A pool in use. -/
structure Usage (Task : Type u) (Value : Type v) where
  pool : ThreadPool Task
  destructor : Destructor
  /-- The tasks that have been queued and not notified yet. -/
  notifications : Nat
  /-- The number of tasks wrapped so far. -/
  packaged : Nat
  /-- What the futures have received. -/
  futures : List (Nat × Result Value)
  /-- An exception has left a thread. -/
  terminated : Bool

inductive Action (Task : Type u) (Value : Type v) where
  | submit (task : Task)
  /-- `notify_one` after a task has been queued. -/
  | notifyOne (woken : Option Nat)
  | workerLoop (worker : Nat)
  /-- A thread gets to the end of its task. -/
  | finish (worker : Nat) (result : Result Value)
  /-- A thread is woken for no reason. -/
  | wake (worker : Nat)
  /-- The destructor takes the mutex. -/
  | shutdown
  | notifyAll
  | join

namespace Usage

variable {Task : Type u} {Value : Type v} (usage : Usage Task Value)

def submit (task : Task) : Except String Nat × Usage Task Value :=
  let (answer, pool) := usage.pool.submit ⟨usage.packaged, task⟩
  (answer, { usage with
    pool
    notifications := usage.notifications + if answer.isOk then 1 else 0
    packaged := usage.packaged + 1 })

def notifyOne : Option Nat → Option (Usage Task Value)
  | some worker =>
      match usage.pool.workers[worker]? with
      | some .waiting =>
          some { usage with
            notifications := usage.notifications - 1, pool := usage.pool.put worker .ready }
      | _ => none
  | none =>
      if usage.pool.workers.any Worker.isWaiting then none
      else some { usage with notifications := usage.notifications - 1 }

/-- The future receives the result, and the thread goes on; a `packaged_task`
that has been executed before throws, and nothing catches that. -/
def finish (worker : Nat) (task : PackagedTask Task) (result : Result Value) : Usage Task Value :=
  if task.serial ∈ usage.futures.map Prod.fst then
    { usage with terminated := true }
  else
    { usage with
      futures := usage.futures ++ [(task.serial, result)], pool := usage.pool.put worker .ready }

/-- A pass of the loop of the destructor. -/
def join (next : Nat) : Option (Usage Task Value) :=
  match usage.pool.workers[next]? with
  | some .exited => some { usage with destructor := .joining (next + 1) }
  | some _ => none
  | none => some { usage with destructor := .returned }

def act : Action Task Value → Option (Usage Task Value)
  | .submit task => if usage.destructor = .returned then none else some (usage.submit task).2
  | .notifyOne woken => if usage.notifications = 0 then none else usage.notifyOne woken
  | .workerLoop worker =>
      match usage.pool.workers[worker]? with
      | some .ready =>
          let (state, pool) := usage.pool.workerLoop
          some { usage with pool := pool.put worker state }
      | _ => none
  | .finish worker result =>
      match usage.pool.workers[worker]? with
      | some (.executing task) => some (usage.finish worker task result)
      | _ => none
  | .wake worker =>
      match usage.pool.workers[worker]? with
      | some .waiting => some { usage with pool := usage.pool.put worker .ready }
      | _ => none
  | .shutdown =>
      if usage.destructor = .uncalled then
        some { usage with pool := { usage.pool with running := false }, destructor := .notifying }
      else
        none
  | .notifyAll =>
      if usage.destructor = .notifying then
        some { usage with
          pool := { usage.pool with workers := usage.pool.workers.map Worker.notify }
          destructor := .joining 0 }
      else
        none
  | .join =>
      match usage.destructor with
      | .joining next => usage.join next
      | _ => none

/-- Nothing follows an exception that nothing catches. -/
def step (action : Action Task Value) : Option (Usage Task Value) :=
  if usage.terminated then none else usage.act action

end Usage

def uses (Task : Type u) (Value : Type v) (numThreads hardwareConcurrency : Nat) :
    System (Usage Task Value) (Action Task Value) where
  initial := ⟨.construct numThreads hardwareConcurrency, .uncalled, 0, 0, [], false⟩
  step := Usage.step

/-- What a step does. -/
inductive Effect {Task : Type u} {Value : Type v} (usage : Usage Task Value) :
    Action Task Value → Usage Task Value → Prop where
  | accepted {task} (accepts : usage.pool.running = true) :
      Effect usage (.submit task) { usage with
        pool := { usage.pool with tasks := usage.pool.tasks ++ [⟨usage.packaged, task⟩] }
        notifications := usage.notifications + 1
        packaged := usage.packaged + 1 }
  | refused {task} (stopped : usage.pool.running = false) :
      Effect usage (.submit task) { usage with packaged := usage.packaged + 1 }
  | notified {worker} (due : 0 < usage.notifications)
      (here : usage.pool.workers[worker]? = some .waiting) :
      Effect usage (.notifyOne (some worker)) { usage with
        notifications := usage.notifications - 1, pool := usage.pool.put worker .ready }
  | unheard (due : 0 < usage.notifications)
      (nobody : ∀ worker ∈ usage.pool.workers, worker.isWaiting = false) :
      Effect usage (.notifyOne none) { usage with notifications := usage.notifications - 1 }
  | waited {worker} (here : usage.pool.workers[worker]? = some .ready)
      (running : usage.pool.running = true) (empty : usage.pool.tasks = []) :
      Effect usage (.workerLoop worker) { usage with pool := usage.pool.put worker .waiting }
  | exited {worker} (here : usage.pool.workers[worker]? = some .ready)
      (stopped : usage.pool.running = false) (empty : usage.pool.tasks = []) :
      Effect usage (.workerLoop worker) { usage with pool := usage.pool.put worker .exited }
  | took {worker task rest} (here : usage.pool.workers[worker]? = some .ready)
      (queued : usage.pool.tasks = task :: rest) :
      Effect usage (.workerLoop worker) { usage with
        pool := { usage.pool with tasks := rest }.put worker (.executing task) }
  | finished {worker task result} (here : usage.pool.workers[worker]? = some (.executing task))
      (first : task.serial ∉ usage.futures.map Prod.fst) :
      Effect usage (.finish worker result) { usage with
        futures := usage.futures ++ [(task.serial, result)], pool := usage.pool.put worker .ready }
  | repeated {worker task result} (here : usage.pool.workers[worker]? = some (.executing task))
      (again : task.serial ∈ usage.futures.map Prod.fst) :
      Effect usage (.finish worker result) { usage with terminated := true }
  | woken {worker} (here : usage.pool.workers[worker]? = some .waiting) :
      Effect usage (.wake worker) { usage with pool := usage.pool.put worker .ready }
  | stopped (uncalled : usage.destructor = .uncalled) :
      Effect usage .shutdown { usage with
        pool := { usage.pool with running := false }, destructor := .notifying }
  | notifiedAll (notifying : usage.destructor = .notifying) :
      Effect usage .notifyAll { usage with
        pool := { usage.pool with workers := usage.pool.workers.map Worker.notify }
        destructor := .joining 0 }
  | joined {next} (joining : usage.destructor = .joining next)
      (here : usage.pool.workers[next]? = some .exited) :
      Effect usage .join { usage with destructor := .joining (next + 1) }
  | returned {next} (joining : usage.destructor = .joining next)
      (here : usage.pool.workers[next]? = none) :
      Effect usage .join { usage with destructor := .returned }

theorem effect_of_step {Task : Type u} {Value : Type v} {usage after : Usage Task Value}
    {action : Action Task Value} (stepped : usage.step action = some after) :
    Effect usage action after := by
  simp only [Usage.step] at stepped
  split at stepped
  · cases stepped
  cases action with
  | submit task =>
      simp only [Usage.act] at stepped
      split at stepped
      · cases stepped
      obtain rfl := Option.some.inj stepped
      cases running : usage.pool.running with
      | false =>
          have same : (usage.submit task).2 = { usage with packaged := usage.packaged + 1 } := by
            simp [Usage.submit, ThreadPool.submit, running, Except.isOk, Except.toBool]
          exact same ▸ .refused running
      | true =>
          have queued := @Effect.accepted _ _ usage task running
          simpa [Usage.submit, ThreadPool.submit, running, Except.isOk, Except.toBool] using queued
  | notifyOne woken =>
      simp only [Usage.act] at stepped
      split at stepped
      · cases stepped
      next due =>
        cases woken with
        | none =>
            simp only [Usage.notifyOne] at stepped
            split at stepped
            · cases stepped
            next nobody =>
              obtain rfl := Option.some.inj stepped
              exact .unheard (Nat.pos_of_ne_zero due) (by simpa using nobody)
        | some worker =>
            simp only [Usage.notifyOne] at stepped
            split at stepped
            next here =>
              obtain rfl := Option.some.inj stepped
              exact .notified (Nat.pos_of_ne_zero due) here
            · cases stepped
  | workerLoop worker =>
      simp only [Usage.act] at stepped
      split at stepped
      next here =>
        obtain rfl := Option.some.inj stepped
        cases queued : usage.pool.tasks with
        | nil =>
            cases running : usage.pool.running with
            | false => simpa [ThreadPool.workerLoop, queued, running] using Effect.exited here running queued
            | true => simpa [ThreadPool.workerLoop, queued, running] using Effect.waited here running queued
        | cons task rest => simpa [ThreadPool.workerLoop, queued] using Effect.took here queued
      · cases stepped
  | finish worker result =>
      simp only [Usage.act] at stepped
      split at stepped
      next task here =>
        obtain rfl := Option.some.inj stepped
        unfold Usage.finish
        split
        next again => exact .repeated here again
        next first => exact .finished here first
      · cases stepped
  | wake worker =>
      simp only [Usage.act] at stepped
      split at stepped
      next here =>
        obtain rfl := Option.some.inj stepped
        exact .woken here
      · cases stepped
  | shutdown =>
      simp only [Usage.act] at stepped
      split at stepped
      next uncalled =>
        obtain rfl := Option.some.inj stepped
        exact .stopped uncalled
      · cases stepped
  | notifyAll =>
      simp only [Usage.act] at stepped
      split at stepped
      next notifying =>
        obtain rfl := Option.some.inj stepped
        exact .notifiedAll notifying
      · cases stepped
  | join =>
      simp only [Usage.act] at stepped
      split at stepped
      next position joining =>
        unfold Usage.join at stepped
        split at stepped
        next here =>
          obtain rfl := Option.some.inj stepped
          exact .joined joining here
        · cases stepped
        next here =>
          obtain rfl := Option.some.inj stepped
          exact .returned joining here
      · cases stepped

end FileServer.Threadpool
