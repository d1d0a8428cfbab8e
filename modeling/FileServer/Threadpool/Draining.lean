import FileServer.Threadpool.ThreadPool
import Mathlib.Algebra.BigOperators.Group.List.Basic
import Mathlib.Algebra.Order.Ring.Nat

/-!
# Draining a thread pool

No thread leaves while tasks are queued, none is forgotten asleep, and what is
left to do gets less with every step of the pool.
-/

namespace FileServer.Threadpool

open FileServer.Transition

universe u v

variable {Task : Type u} {Value : Type v}

/-- The steps a thread is sure to take before it waits again. -/
def Worker.load : Worker Task → Nat
  | .ready => 1
  | .executing _ => 2
  | _ => 0

namespace ThreadPool

variable {pool : ThreadPool Task} {index : Nat} {old : Worker Task}

def load (pool : ThreadPool Task) : Nat := (pool.workers.map Worker.load).sum

@[simp]
theorem tasks_put (new : Worker Task) : (pool.put index new).tasks = pool.tasks := rfl

@[simp]
theorem running_put (new : Worker Task) : (pool.put index new).running = pool.running := rfl

@[simp]
theorem length_put (new : Worker Task) :
    (pool.put index new).workers.length = pool.workers.length := List.length_set

theorem workers_put (here : pool.workers[index]? = some old) (new : Worker Task) :
    ∃ front back, pool.workers = front ++ old :: back ∧
      (pool.put index new).workers = front ++ new :: back := by
  obtain ⟨inRange, rfl⟩ := List.getElem?_eq_some_iff.mp here
  obtain ⟨front, back, whole, _, changed⟩ := @List.exists_of_set _ _ new _ inRange
  exact ⟨front, back, whole, changed⟩

theorem load_put (here : pool.workers[index]? = some old) (new : Worker Task) :
    ∃ others, pool.load = others + old.load ∧ (pool.put index new).load = others + new.load := by
  obtain ⟨front, back, whole, changed⟩ := workers_put here new
  refine ⟨(front.map Worker.load).sum + (back.map Worker.load).sum, ?_, ?_⟩
  · simp only [load, whole, List.map_append, List.map_cons, List.sum_append, List.sum_cons]
    omega
  · simp only [load, changed, List.map_append, List.map_cons, List.sum_append, List.sum_cons]
    omega

theorem underWay_put (here : pool.workers[index]? = some old) (new : Worker Task) :
    ∃ front back, pool.underWay = front ++ old.task?.toList ++ back ∧
      (pool.put index new).underWay = front ++ new.task?.toList ++ back := by
  obtain ⟨front, back, whole, changed⟩ := workers_put here new
  refine ⟨front.filterMap Worker.task?, back.filterMap Worker.task?, ?_, ?_⟩
  · rw [underWay, whole, List.filterMap_append, List.filterMap_cons]
    cases old.task? <;> simp
  · rw [underWay, changed, List.filterMap_append, List.filterMap_cons]
    cases new.task? <;> simp

theorem forall_put {P : Worker Task → Prop} {new : Worker Task}
    (all : ∀ worker ∈ pool.workers, P worker) (holds : P new) :
    ∀ worker ∈ (pool.put index new).workers, P worker := by
  intro worker membership
  rcases List.mem_or_eq_of_mem_set membership with before | rfl
  · exact all worker before
  · exact holds

/-- A thread that has left stays away. -/
theorem exited_put (here : pool.workers[index]? = some old) (live : old ≠ .exited)
    (new : Worker Task) {other : Nat} (left : pool.workers[other]? = some .exited) :
    (pool.put index new).workers[other]? = some .exited := by
  have different : index ≠ other := by
    rintro rfl
    exact live (Option.some.inj (here.symm.trans left))
  exact (List.getElem?_set_ne different).trans left

/-- A thread that neither waits nor has left has something to do. -/
theorem load_pos {worker : Worker Task} (membership : worker ∈ pool.workers)
    (awake : worker.isWaiting = false) (present : worker ≠ .exited) : 0 < pool.load := by
  have positive : 0 < worker.load := by
    cases worker with
    | ready => exact Nat.one_pos
    | waiting => cases awake
    | executing task => exact Nat.two_pos
    | exited => exact absurd rfl present
  apply List.sum_pos_iff_exists_pos_nat.mpr
  exact ⟨worker.load, List.mem_map_of_mem membership, positive⟩

theorem load_notify (workers : List (Worker Task)) :
    ((workers.map Worker.notify).map Worker.load).sum ≤
      (workers.map Worker.load).sum + workers.length := by
  induction workers with
  | nil => exact Nat.le_refl 0
  | cons worker rest inductionHypothesis =>
      have one : worker.notify.load ≤ worker.load + 1 := by
        cases worker with
        | waiting => exact Nat.le_refl 1
        | ready => exact Nat.le_succ 1
        | executing task => exact Nat.le_succ 2
        | exited => exact Nat.zero_le 1
      simp only [List.map_cons, List.sum_cons, List.length_cons]
      omega

end ThreadPool

@[simp]
theorem Worker.isWaiting_notify (worker : Worker Task) : worker.notify.isWaiting = false := by
  cases worker <;> rfl

@[simp]
theorem Worker.notify_eq_exited {worker : Worker Task} : worker.notify = .exited ↔ worker = .exited := by
  cases worker <;> simp [Worker.notify]

def Destructor.joined (count : Nat) : Destructor → Nat
  | .joining next => next
  | .returned => count
  | _ => 0

/-- What holds of a pool at any time. -/
structure Valid (usage : Usage Task Value) : Prop where
  staffed : 0 < usage.pool.workers.length
  opened : usage.pool.running = true ↔ usage.destructor = .uncalled
  drained : ∀ worker ∈ usage.pool.workers, worker = .exited →
    usage.pool.running = false ∧ usage.pool.tasks = []
  attended : usage.pool.tasks ≠ [] →
    0 < usage.pool.load ∨ 0 < usage.notifications ∨ usage.destructor = .notifying
  awake : ∀ next, usage.destructor = .joining next →
    ∀ worker ∈ usage.pool.workers, worker.isWaiting = false
  joined : ∀ index < usage.destructor.joined usage.pool.workers.length,
    usage.pool.workers[index]? = some .exited

namespace Valid

variable {usage : Usage Task Value} {index : Nat} {old : Worker Task}

theorem construct (numThreads hardwareConcurrency : Nat) :
    Valid (uses Task Value numThreads hardwareConcurrency).initial where
  staffed := by
    simp only [uses, ThreadPool.construct, List.length_replicate]
    split
    · split <;> omega
    · omega
  opened := by simp [uses, ThreadPool.construct]
  drained := by
    intro worker membership left
    rw [List.eq_of_mem_replicate membership] at left
    cases left
  attended := fun queued => absurd rfl queued
  awake := by
    intro next joining
    cases joining
  joined := fun index inRange => absurd inRange (Nat.not_lt_zero index)

theorem load_pos (valid : Valid usage) (queued : usage.pool.tasks ≠ [])
    (awake : ∀ worker ∈ usage.pool.workers, worker.isWaiting = false) : 0 < usage.pool.load := by
  obtain ⟨worker, membership⟩ := List.exists_mem_of_length_pos valid.staffed
  refine ThreadPool.load_pos membership (awake worker membership) ?_
  intro left
  exact queued (valid.drained worker membership left).2

theorem drained_put (valid : Valid usage) {new : Worker Task} (live : new ≠ .exited) :
    ∀ worker ∈ (usage.pool.put index new).workers, worker = .exited →
      usage.pool.running = false ∧ usage.pool.tasks = [] :=
  ThreadPool.forall_put valid.drained fun left => absurd left live

theorem joined_put (valid : Valid usage) (here : usage.pool.workers[index]? = some old)
    (live : old ≠ .exited) (new : Worker Task) :
    ∀ position < usage.destructor.joined (usage.pool.put index new).workers.length,
      (usage.pool.put index new).workers[position]? = some .exited := by
  intro position inRange
  rw [ThreadPool.length_put] at inRange
  exact ThreadPool.exited_put here live new (valid.joined position inRange)

theorem closed (valid : Valid usage) (begun : usage.destructor ≠ .uncalled) :
    usage.pool.running = false := by
  cases running : usage.pool.running with
  | false => rfl
  | true => exact absurd (valid.opened.mp running) begun

theorem attended_joining (valid : Valid usage) (begun : usage.destructor ≠ .notifying)
    (queued : usage.pool.tasks ≠ []) : 0 < usage.pool.load ∨ 0 < usage.notifications := by
  rcases valid.attended queued with busy | due | notifying
  · exact .inl busy
  · exact .inr due
  · exact absurd notifying begun

theorem put_ready (valid : Valid usage) (here : usage.pool.workers[index]? = some old)
    (live : old ≠ .exited) (notifications : Nat) (futures : List (Nat × Result Value)) :
    Valid { usage with pool := usage.pool.put index .ready, notifications, futures } where
  staffed := by simpa using valid.staffed
  opened := valid.opened
  drained := valid.drained_put (by simp)
  attended := by
    intro _
    obtain ⟨others, _, load⟩ := ThreadPool.load_put here .ready
    exact .inl (load ▸ Nat.succ_pos others)
  awake := fun next joining => ThreadPool.forall_put (valid.awake next joining) rfl
  joined := valid.joined_put here live _

theorem next {action : Action Task Value} {after : Usage Task Value} (valid : Valid usage)
    (effect : Effect usage action after) : Valid after := by
  cases effect with
  | @accepted task accepts =>
      refine ⟨valid.staffed, valid.opened, ?_, ?_, valid.awake, valid.joined⟩
      · intro worker membership left
        cases accepts.symm.trans (valid.drained worker membership left).1
      · exact fun _ => .inr (.inl (Nat.succ_pos _))
  | refused stopped =>
      exact ⟨valid.staffed, valid.opened, valid.drained, valid.attended, valid.awake, valid.joined⟩
  | notified due here => exact valid.put_ready here (by simp) _ _
  | unheard due nobody =>
      refine ⟨valid.staffed, valid.opened, valid.drained, ?_, valid.awake, valid.joined⟩
      exact fun queued => .inl (valid.load_pos queued nobody)
  | waited here running empty =>
      refine ⟨by simpa using valid.staffed, valid.opened, valid.drained_put (by simp),
        fun queued => absurd empty queued, ?_, valid.joined_put here (by simp) _⟩
      intro next joining
      cases joining.symm.trans (valid.opened.mp running)
  | exited here stopped empty =>
      refine ⟨by simpa using valid.staffed, valid.opened, ?_, fun queued => absurd empty queued, ?_,
        valid.joined_put here (by simp) _⟩
      · exact ThreadPool.forall_put valid.drained fun _ => ⟨stopped, empty⟩
      · exact fun next joining => ThreadPool.forall_put (valid.awake next joining) rfl
  | @took worker task rest here queued =>
      have present : ∀ worker ∈ usage.pool.workers, worker ≠ .exited := by
        intro worker membership left
        cases queued.symm.trans (valid.drained worker membership left).2
      refine ⟨?_, valid.opened, ?_, ?_, ?_, valid.joined_put here (by simp) _⟩
      · exact (ThreadPool.length_put _).symm ▸ valid.staffed
      · apply ThreadPool.forall_put
        · exact fun worker membership left => absurd left (present worker membership)
        · intro left
          cases left
      · intro _
        obtain ⟨others, _, load⟩ := @ThreadPool.load_put Task
          { usage.pool with tasks := rest } _ _ here (.executing task)
        exact .inl (load ▸ Nat.succ_pos (others + 1))
      · exact fun next joining => ThreadPool.forall_put (valid.awake next joining) rfl
  | finished here first => exact valid.put_ready here (by simp) _ _
  | repeated here again =>
      exact ⟨valid.staffed, valid.opened, valid.drained, valid.attended, valid.awake, valid.joined⟩
  | woken here => exact valid.put_ready here (by simp) _ _
  | stopped uncalled =>
      refine ⟨valid.staffed, by simp, ?_, fun _ => .inr (.inr rfl), ?_, ?_⟩
      · intro worker membership left
        exact ⟨rfl, (valid.drained worker membership left).2⟩
      · intro next joining
        cases joining
      · exact fun index inRange => absurd inRange (Nat.not_lt_zero index)
  | notifiedAll notifying =>
      have awake : ∀ worker ∈ usage.pool.workers.map Worker.notify, worker.isWaiting = false := by
        simp
      have drained : ∀ worker ∈ usage.pool.workers.map Worker.notify, worker = .exited →
          usage.pool.running = false ∧ usage.pool.tasks = [] := by
        intro worker membership left
        obtain ⟨before, inWorkers, rfl⟩ := List.mem_map.mp membership
        exact valid.drained before inWorkers (Worker.notify_eq_exited.mp left)
      have staffed : 0 < (usage.pool.workers.map Worker.notify).length := by
        simpa using valid.staffed
      have closed : usage.pool.running = false := valid.closed (by simp [notifying])
      refine ⟨staffed, by simp [closed], drained, ?_, fun _ _ => awake, ?_⟩
      · intro queued
        obtain ⟨worker, membership⟩ := List.exists_mem_of_length_pos staffed
        refine .inl (ThreadPool.load_pos membership (awake worker membership) ?_)
        intro left
        exact queued (drained worker membership left).2
      · exact fun index inRange => absurd inRange (Nat.not_lt_zero index)
  | @joined next joining here =>
      have closed : usage.pool.running = false := valid.closed (by simp [joining])
      refine ⟨valid.staffed, by simp [closed], valid.drained, ?_, ?_, ?_⟩
      · exact fun queued => (valid.attended_joining (by simp [joining]) queued).imp_right .inl
      · exact fun _ _ => valid.awake next joining
      · intro index inRange
        rcases Nat.lt_succ_iff_lt_or_eq.mp inRange with before | rfl
        · exact valid.joined index (joining.symm ▸ before)
        · exact here
  | @returned next joining here =>
      have closed : usage.pool.running = false := valid.closed (by simp [joining])
      refine ⟨valid.staffed, by simp [closed], valid.drained, ?_, ?_, ?_⟩
      · exact fun queued => (valid.attended_joining (by simp [joining]) queued).imp_right .inl
      · intro other again
        cases again
      · intro index inRange
        have before : index < next := Nat.lt_of_lt_of_le inRange (List.getElem?_eq_none_iff.mp here)
        exact valid.joined index (joining.symm ▸ before)

end Valid

def Destructor.remaining (count : Nat) : Destructor → Nat
  | .notifying => 2 * count + 2
  | .joining next => count - next + 1
  | _ => 0

/-- What is left to do. -/
def Usage.remaining (usage : Usage Task Value) : Nat :=
  2 * usage.pool.tasks.length + usage.pool.load + 2 * usage.notifications +
    usage.destructor.remaining usage.pool.workers.length

/-- The steps by which a pool goes on with what it has been given. -/
def Action.Internal : Action Task Value → Prop
  | .submit _ | .wake _ | .shutdown => False
  | _ => True

section Progress

variable {usage after : Usage Task Value} {action : Action Task Value}

theorem remaining_put {index : Nat} {old new : Worker Task}
    (here : usage.pool.workers[index]? = some old) (less : new.load < old.load)
    (futures : List (Nat × Result Value)) :
    Usage.remaining { usage with pool := usage.pool.put index new, futures } < usage.remaining := by
  obtain ⟨others, before, later⟩ := ThreadPool.load_put here new
  simp only [Usage.remaining, ThreadPool.tasks_put, ThreadPool.length_put, before, later]
  omega

/-- Every step of the pool lowers what is left. -/
theorem Effect.lowers (effect : Effect usage action after) (kind : action.Internal)
    (proceeds : after.terminated = false) : after.remaining < usage.remaining := by
  cases effect with
  | accepted accepts => cases kind
  | refused stopped => cases kind
  | notified due here =>
      obtain ⟨others, before, later⟩ := ThreadPool.load_put here .ready
      simp only [Usage.remaining, ThreadPool.tasks_put, ThreadPool.length_put, before, later,
        Worker.load]
      omega
  | unheard due nobody =>
      simp only [Usage.remaining]
      omega
  | waited here running empty => exact remaining_put here (by simp [Worker.load]) _
  | exited here stopped empty => exact remaining_put here (by simp [Worker.load]) _
  | @took worker task rest here queued =>
      obtain ⟨others, before, later⟩ := @ThreadPool.load_put Task
        { usage.pool with tasks := rest } _ _ here (.executing task)
      have same : usage.pool.load = others + Worker.load (.ready : Worker Task) := before
      simp only [Usage.remaining, ThreadPool.tasks_put, ThreadPool.length_put, later, same, queued,
        List.length_cons, Worker.load]
      omega
  | finished here first => exact remaining_put here (by simp [Worker.load]) _
  | repeated here again => cases proceeds
  | woken here => cases kind
  | stopped uncalled => cases kind
  | notifiedAll notifying =>
      have load := ThreadPool.load_notify usage.pool.workers
      simp only [Usage.remaining, ThreadPool.load, notifying, Destructor.remaining, List.length_map]
      omega
  | @joined next joining here =>
      have inRange := (List.getElem?_eq_some_iff.mp here).1
      simp only [Usage.remaining, joining, Destructor.remaining]
      omega
  | @returned next joining here =>
      simp only [Usage.remaining, joining, Destructor.remaining]
      omega

/-- A pool that cannot go on has nothing left to do. -/
theorem Valid.idle (valid : Valid usage) (proceeds : usage.terminated = false)
    (stuck : ∀ action : Action Task Value, action.Internal → usage.step action = none) :
    usage.pool.tasks = [] ∧ usage.pool.underWay = [] ∧
      (usage.pool.running = false → usage.destructor = .returned) := by
  have stuck : ∀ action : Action Task Value, action.Internal → usage.act action = none := by
    intro action kind
    have none := stuck action kind
    rwa [Usage.step, proceeds, if_neg Bool.false_ne_true] at none
  have asleep : ∀ worker ∈ usage.pool.workers, worker = .waiting ∨ worker = .exited := by
    intro worker membership
    obtain ⟨index, here⟩ := List.mem_iff_getElem?.mp membership
    cases worker with
    | ready =>
        have blocked := stuck (.workerLoop index) trivial
        simp [Usage.act, here] at blocked
    | waiting => exact .inl rfl
    | executing task =>
        have blocked := stuck (.finish index (.error "")) trivial
        simp [Usage.act, here] at blocked
    | exited => exact .inr rfl
  have heard : usage.notifications = 0 := by
    by_contra due
    by_cases waits : usage.pool.workers.any Worker.isWaiting = true
    · obtain ⟨worker, membership, waiting⟩ := List.any_eq_true.mp waits
      obtain ⟨index, here⟩ := List.mem_iff_getElem?.mp membership
      cases worker with
      | waiting =>
          have blocked := stuck (.notifyOne (some index)) trivial
          simp [Usage.act, due, Usage.notifyOne, here] at blocked
      | ready => cases waiting
      | executing task => cases waiting
      | exited => cases waiting
    · have blocked := stuck (.notifyOne none) trivial
      simp only [Usage.act, if_neg due, Usage.notifyOne, if_neg waits] at blocked
      cases blocked
  have quiet : usage.destructor ≠ .notifying := by
    intro notifying
    have blocked := stuck .notifyAll trivial
    simp [Usage.act, notifying] at blocked
  have unloaded : usage.pool.load = 0 := by
    apply List.sum_eq_zero
    intro load membership
    obtain ⟨worker, inWorkers, rfl⟩ := List.mem_map.mp membership
    rcases asleep worker inWorkers with rfl | rfl
    · rfl
    · rfl
  refine ⟨?_, ?_, ?_⟩
  · by_contra queued
    rcases valid.attended queued with busy | due | notifying
    · exact Nat.ne_of_gt busy unloaded
    · exact Nat.ne_of_gt due heard
    · exact quiet notifying
  · apply List.filterMap_eq_nil_iff.mpr
    intro worker membership
    rcases asleep worker membership with rfl | rfl
    · rfl
    · rfl
  · intro stopped
    cases destructor : usage.destructor with
    | uncalled =>
        have running := valid.opened.mpr destructor
        cases running.symm.trans stopped
    | notifying => exact absurd destructor quiet
    | joining next =>
        have blocked := stuck .join trivial
        simp only [Usage.act, destructor, Usage.join] at blocked
        split at blocked
        · cases blocked
        next worker present here =>
          have membership := List.mem_of_getElem? here
          rcases asleep worker membership with rfl | rfl
          · cases valid.awake next destructor _ membership
          · exact absurd rfl present
        · cases blocked
    | returned => rfl

end Progress

end FileServer.Threadpool
