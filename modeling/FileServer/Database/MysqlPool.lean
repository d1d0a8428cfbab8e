import FileServer.Transition.Run

/-!
# The pool of database connections

`MysqlPool` with the callers that wait for a connection, the `shared_ptr`s that
hold one, and the notifications on their way.  The mutex is held from the end
of the wait to the end of `GetConnection`.
-/

namespace FileServer.Database

open FileServer.Transition

/-- The address of a `MYSQL` object. -/
abbrev Connection := Nat

abbrev Caller := Nat

/-- What the MySQL library answers in one call of `GetConnection`. -/
structure Answers where
  createConnection : Option Connection
  mysqlPing : Int
  mysqlRealConnect : Bool

structure MysqlPool where
  pool : List Connection
  poolSize : Nat
  totalCreated : Nat
  deriving DecidableEq

namespace MysqlPool

/-- A pass of the loop of the constructor. -/
def preCreate (pool : MysqlPool) : Option Connection → MysqlPool
  | some conn => { pool with pool := pool.pool ++ [conn], totalCreated := pool.totalCreated + 1 }
  | none => pool

/-- The constructor; `created` answers the calls of `CreateConnection`. -/
def construct (poolSize : Nat) (created : Nat → Option Connection) : MysqlPool :=
  ((List.range poolSize).map created).foldl preCreate ⟨[], poolSize, 0⟩

/-- The condition that `GetConnection` waits for. -/
def Available (pool : MysqlPool) : Prop :=
  pool.pool ≠ [] ∨ pool.totalCreated < pool.poolSize

instance (pool : MysqlPool) : Decidable pool.Available := inferInstanceAs (Decidable (_ ∨ _))

def take (pool : MysqlPool) (answers : Answers) : Option Connection × MysqlPool :=
  match pool.pool with
  | conn :: rest => (some conn, { pool with pool := rest })
  | [] =>
      if pool.totalCreated < pool.poolSize then
        match answers.createConnection with
        | some conn => (some conn, { pool with totalCreated := pool.totalCreated + 1 })
        | none => (none, pool)
      else
        (none, pool)

def getConnection (pool : MysqlPool) (answers : Answers) : Option Connection × MysqlPool :=
  match pool.take answers with
  | (none, pool) => (none, pool)
  | (some conn, pool) =>
      if answers.mysqlPing ≠ 0 then
        if answers.mysqlRealConnect then (some conn, pool) else (none, pool)
      else
        (some conn, pool)

def returnConnection (pool : MysqlPool) (conn : Connection) : MysqlPool :=
  { pool with pool := pool.pool ++ [conn] }

/-- A connection is at hand, but neither answers a ping nor can be connected
again. -/
def Drops (pool : MysqlPool) (answers : Answers) : Prop :=
  (pool.take answers).1 ≠ none ∧ answers.mysqlPing ≠ 0 ∧ answers.mysqlRealConnect = false

instance (pool : MysqlPool) (answers : Answers) : Decidable (pool.Drops answers) :=
  inferInstanceAs (Decidable (_ ∧ _))

end MysqlPool

/-- A pool in use. -/
structure Usage where
  pool : MysqlPool
  /-- The connections held by `shared_ptr`s. -/
  lent : List Connection
  /-- The callers blocked on the condition variable. -/
  waiting : List Caller
  /-- The callers that were woken and have not checked the condition yet. -/
  notified : List Caller
  deriving DecidableEq

inductive Action where
  /-- `GetConnection` is called. -/
  | get (caller : Caller) (answers : Answers)
  /-- A blocked caller checks the condition again, woken or for no reason. -/
  | resume (caller : Caller) (answers : Answers)
  /-- The last owner of a `shared_ptr` is gone; `notify_one` wakes a caller. -/
  | release (conn : Connection) (woken : Option Caller)

namespace Usage

def check (usage : Usage) (caller : Caller) (answers : Answers) : Usage :=
  if usage.pool.Available then
    { usage with
      pool := (usage.pool.getConnection answers).2
      lent := usage.lent ++ (usage.pool.getConnection answers).1.toList }
  else
    { usage with waiting := usage.waiting ++ [caller] }

/-- `notify_one` wakes one of the blocked callers, if there is any. -/
def wake? (usage : Usage) : Option Caller → Option Usage
  | some caller =>
      if caller ∈ usage.waiting then
        some { usage with
          waiting := usage.waiting.erase caller, notified := usage.notified ++ [caller] }
      else
        none
  | none => if usage.waiting = [] then some usage else none

def step (usage : Usage) : Action → Option Usage
  | .get caller answers =>
      if caller ∈ usage.waiting ∨ caller ∈ usage.notified then none
      else some (usage.check caller answers)
  | .resume caller answers =>
      if caller ∈ usage.waiting ∨ caller ∈ usage.notified then
        some ({ usage with
          waiting := usage.waiting.erase caller
          notified := usage.notified.erase caller }.check caller answers)
      else
        none
  | .release conn woken =>
      if conn ∈ usage.lent then
        { usage with
          lent := usage.lent.erase conn, pool := usage.pool.returnConnection conn }.wake? woken
      else
        none

end Usage

def uses (poolSize : Nat) (created : Nat → Option Connection) : System Usage Action where
  initial := ⟨.construct poolSize created, [], [], []⟩
  step := Usage.step

/-- The caller loses the connection it took. -/
def Action.Drops (usage : Usage) : Action → Prop
  | .get _ answers | .resume _ answers => usage.pool.Drops answers
  | .release _ _ => False

instance (usage : Usage) (action : Action) : Decidable (action.Drops usage) := by
  unfold Action.Drops
  split <;> infer_instance

/-- Every slot is idle or lent out, and callers are kept waiting for lent ones
alone: where callers are blocked, a notification is on its way for each slot
that is not lent out. -/
structure Usage.SlotsKept (usage : Usage) : Prop where
  counted : usage.pool.totalCreated = usage.pool.pool.length + usage.lent.length
  bounded : usage.pool.totalCreated ≤ usage.pool.poolSize
  waits : ¬usage.pool.Available → usage.lent.length = usage.pool.poolSize
  blocked : usage.waiting ≠ [] →
    usage.pool.poolSize ≤ usage.lent.length + usage.notified.length

namespace MysqlPool

theorem preCreate_fold (answers : List (Option Connection)) (pool : MysqlPool) :
    (answers.foldl preCreate pool).poolSize = pool.poolSize ∧
      (answers.foldl preCreate pool).totalCreated ≤ pool.totalCreated + answers.length ∧
      (answers.foldl preCreate pool).totalCreated + pool.pool.length =
        (answers.foldl preCreate pool).pool.length + pool.totalCreated := by
  induction answers generalizing pool with
  | nil => simp [Nat.add_comm]
  | cons answer answers inductionHypothesis =>
      obtain ⟨size, bound, count⟩ := inductionHypothesis (pool.preCreate answer)
      rw [List.foldl_cons, List.length_cons]
      cases answer with
      | none =>
          simp only [preCreate] at size bound count ⊢
          refine ⟨size, by omega, count⟩
      | some conn =>
          simp only [preCreate, List.length_append, List.length_singleton] at size bound count ⊢
          refine ⟨size, by omega, by omega⟩

theorem not_available {pool : MysqlPool} :
    ¬pool.Available ↔ pool.pool = [] ∧ pool.poolSize ≤ pool.totalCreated := by
  rw [Available, not_or, Classical.not_not, Nat.not_lt]

theorem getConnection_cases (pool : MysqlPool) (answers : Answers) :
    (pool.Drops answers ∧ (pool.getConnection answers).1 = none ∨
      ¬pool.Drops answers ∧ (pool.getConnection answers).1 = (pool.take answers).1) ∧
    (pool.getConnection answers).2 = (pool.take answers).2 := by
  simp only [getConnection, Drops]
  split
  next rest taken => simp [taken]
  next conn rest taken =>
    rw [taken]
    split
    next dead =>
      cases again : answers.mysqlRealConnect with
      | false => simp [dead]
      | true => simp
    next alive => simp [alive]

theorem take_cases (pool : MysqlPool) (answers : Answers) :
    (∃ conn rest, pool.pool = conn :: rest ∧
      pool.take answers = (some conn, { pool with pool := rest })) ∨
    (∃ conn, pool.totalCreated < pool.poolSize ∧ pool.pool = [] ∧
      pool.take answers = (some conn, { pool with totalCreated := pool.totalCreated + 1 })) ∨
    pool.pool = [] ∧ pool.take answers = (none, pool) := by
  simp only [take]
  split
  next conn rest idle => exact .inl ⟨conn, rest, idle, rfl⟩
  next empty =>
    refine .inr ?_
    split
    next room =>
      split
      next conn _ => exact .inl ⟨conn, room, empty, rfl⟩
      · exact .inr ⟨empty, rfl⟩
    · exact .inr ⟨empty, rfl⟩

end MysqlPool

namespace Usage

/-- The slots of the pool that are neither idle nor lent out. -/
def leaked (usage : Usage) : Int :=
  usage.pool.totalCreated - usage.pool.pool.length - usage.lent.length

/-- The bound on the slots, and why callers are blocked. -/
structure Bounded (usage : Usage) : Prop where
  created : usage.pool.totalCreated ≤ usage.pool.poolSize
  blocked : usage.waiting ≠ [] → usage.pool.totalCreated = usage.pool.poolSize ∧
    usage.pool.pool.length ≤ usage.notified.length

theorem slotsKept_iff {usage : Usage} (bounded : usage.Bounded) :
    usage.SlotsKept ↔ usage.leaked = 0 := by
  constructor
  · intro kept
    have counted := kept.counted
    rw [leaked]
    omega
  · intro none
    rw [leaked] at none
    have counted : usage.pool.totalCreated = usage.pool.pool.length + usage.lent.length := by
      omega
    have created := bounded.created
    refine ⟨counted, created, ?_, ?_⟩
    · intro unavailable
      obtain ⟨idle, full⟩ := MysqlPool.not_available.mp unavailable
      rw [idle, List.length_nil] at counted
      omega
    · intro waits
      obtain ⟨full, woken⟩ := bounded.blocked waits
      omega

theorem leaked_check (usage : Usage) (caller : Caller) (answers : Answers) :
    (usage.check caller answers).leaked =
      usage.leaked + if usage.pool.Drops answers then 1 else 0 := by
  obtain ⟨kept, rest⟩ := usage.pool.getConnection_cases answers
  rw [check]
  split
  next available =>
    rw [leaked, leaked, rest]
    rcases kept with ⟨drops, nothing⟩ | ⟨keeps, taken⟩
    · have obtained := drops.1
      rw [if_pos drops, nothing]
      rcases usage.pool.take_cases answers with
        ⟨conn, others, idle, popped⟩ | ⟨conn, _, idle, created⟩ | ⟨_, missing⟩
      · simp only [popped, idle, List.length_cons, Option.toList_none, List.append_nil]
        omega
      · simp only [created, Option.toList_none, List.append_nil]
        omega
      · simp [missing] at obtained
    · rw [if_neg keeps, taken]
      rcases usage.pool.take_cases answers with
        ⟨conn, others, idle, popped⟩ | ⟨conn, _, idle, created⟩ | ⟨_, missing⟩
      · simp only [popped, idle, List.length_cons, Option.toList_some, List.length_append,
          List.length_nil]
        omega
      · simp only [created, Option.toList_some, List.length_append, List.length_singleton]
        omega
      · simp [missing]
  next unavailable =>
    obtain ⟨idle, full⟩ := MysqlPool.not_available.mp unavailable
    have keeps : ¬usage.pool.Drops answers := by
      intro drops
      refine drops.1 ?_
      simp [MysqlPool.take, idle, Nat.not_lt.mpr full]
    rw [if_neg keeps]
    exact (Int.add_zero _).symm

theorem bounded_check {usage : Usage} (caller : Caller) (answers : Answers)
    (created : usage.pool.totalCreated ≤ usage.pool.poolSize)
    (blocked : usage.waiting ≠ [] → usage.pool.totalCreated = usage.pool.poolSize ∧
      usage.pool.pool.length ≤ usage.notified.length + 1) :
    (usage.check caller answers).Bounded := by
  obtain ⟨_, rest⟩ := usage.pool.getConnection_cases answers
  rw [check]
  split
  next available =>
    rcases usage.pool.take_cases answers with
      ⟨conn, others, idle, popped⟩ | ⟨conn, room, idle, added⟩ | ⟨idle, missing⟩
    · refine ⟨by simpa [rest, popped] using created, ?_⟩
      intro waits
      obtain ⟨full, woken⟩ := blocked waits
      rw [idle, List.length_cons] at woken
      simp only [rest, popped]
      exact ⟨full, by omega⟩
    · refine ⟨by simp only [rest, added]; omega, ?_⟩
      intro waits
      have full := (blocked waits).1
      omega
    · refine ⟨by simpa [rest, missing] using created, ?_⟩
      intro waits
      simp [rest, missing, idle, (blocked waits).1]
  next unavailable =>
    obtain ⟨idle, full⟩ := MysqlPool.not_available.mp unavailable
    exact ⟨created, fun _ => ⟨Nat.le_antisymm created full, by simp [idle]⟩⟩

theorem wake?_eq_some {usage after : Usage} {woken : Option Caller}
    (woke : usage.wake? woken = some after) :
    after.pool = usage.pool ∧ after.lent = usage.lent ∧
      (after.waiting = [] ∨
        usage.waiting ≠ [] ∧ after.notified.length = usage.notified.length + 1) := by
  cases woken with
  | none =>
      simp only [wake?] at woke
      split at woke
      next free =>
        cases woke
        exact ⟨rfl, rfl, .inl free⟩
      · cases woke
  | some caller =>
      simp only [wake?] at woke
      split at woke
      next waits =>
        cases woke
        exact ⟨rfl, rfl, .inr ⟨List.ne_nil_of_mem waits, by simp⟩⟩
      · cases woke

theorem step_leaked {usage after : Usage} {action : Action}
    (stepped : usage.step action = some after) :
    after.leaked = usage.leaked + if action.Drops usage then 1 else 0 := by
  cases action with
  | get caller answers =>
      simp only [step] at stepped
      split at stepped
      · cases stepped
      · cases stepped
        exact usage.leaked_check caller answers
  | resume caller answers =>
      simp only [step] at stepped
      split at stepped
      · cases stepped
        exact leaked_check _ caller answers
      · cases stepped
  | release conn woken =>
      simp only [step] at stepped
      split at stepped
      next held =>
        obtain ⟨pool, lent, _⟩ := wake?_eq_some stepped
        have positive := List.length_pos_of_mem held
        have keeps : ¬Action.Drops usage (.release conn woken) := not_false
        rw [if_neg keeps]
        simp only [leaked, pool, lent, MysqlPool.returnConnection, List.length_append,
          List.length_singleton, List.length_erase_of_mem held]
        omega
      · cases stepped

theorem step_bounded {usage after : Usage} {action : Action} (bounded : usage.Bounded)
    (stepped : usage.step action = some after) : after.Bounded := by
  cases action with
  | get caller answers =>
      simp only [step] at stepped
      split at stepped
      · cases stepped
      · cases stepped
        apply bounded_check
        · exact bounded.created
        intro waits
        obtain ⟨full, woken⟩ := bounded.blocked waits
        exact ⟨full, by omega⟩
  | resume caller answers =>
      simp only [step] at stepped
      split at stepped
      · cases stepped
        apply bounded_check
        · exact bounded.created
        intro waits
        have blocked : usage.waiting ≠ [] := by
          rintro none
          simp [none] at waits
        obtain ⟨full, woken⟩ := bounded.blocked blocked
        refine ⟨full, ?_⟩
        have removed : usage.notified.length ≤ (usage.notified.erase caller).length + 1 := by
          rw [List.length_erase]
          split <;> omega
        exact Nat.le_trans woken removed
      · cases stepped
  | release conn woken =>
      simp only [step] at stepped
      split at stepped
      · obtain ⟨pool, _, blocked⟩ := wake?_eq_some stepped
        refine ⟨by rw [pool]; exact bounded.created, ?_⟩
        intro waits
        rcases blocked with free | ⟨blocked, passed⟩
        · exact absurd free waits
        · obtain ⟨full, woken⟩ := bounded.blocked blocked
          rw [pool, passed]
          simp only [MysqlPool.returnConnection, List.length_append, List.length_singleton]
          exact ⟨full, by omega⟩
      · cases stepped

end Usage

section Uses

variable {poolSize : Nat} {created : Nat → Option Connection}

theorem uses_initial :
    (uses poolSize created).initial.Bounded ∧ (uses poolSize created).initial.leaked = 0 := by
  obtain ⟨size, bound, count⟩ :=
    MysqlPool.preCreate_fold ((List.range poolSize).map created) ⟨[], poolSize, 0⟩
  simp only [List.length_map, List.length_range, List.length_nil] at size bound count
  refine ⟨⟨?_, by simp [uses]⟩, ?_⟩
  · simp only [uses, MysqlPool.construct]
    omega
  · simp only [uses, MysqlPool.construct, Usage.leaked, List.length_nil]
    omega

theorem run_bounded {history : List (Event Usage Action)} {usage : Usage}
    (run : Run (uses poolSize created) history usage) : usage.Bounded :=
  run.invariant Usage.Bounded uses_initial.1 fun _ _ _ bounded => Usage.step_bounded bounded

def dropped (history : List (Event Usage Action)) : Nat :=
  history.countP fun event => event.action.Drops event.before

theorem run_leaked {history : List (Event Usage Action)} {usage : Usage}
    (run : Run (uses poolSize created) history usage) : usage.leaked = dropped history := by
  refine run.historyInvariant (fun history usage => usage.leaked = dropped history) ?_ ?_
  · exact uses_initial.2
  · intro history before action after _ counted stepped
    rw [Usage.step_leaked stepped, counted, dropped, dropped, List.countP_cons]
    by_cases drops : action.Drops before
    · simp [drops]
    · simp [drops]

/-- The pool keeps its slots exactly as long as no connection is dropped. -/
theorem slots_kept_iff {history : List (Event Usage Action)} {usage : Usage}
    (run : Run (uses poolSize created) history usage) :
    (∀ earlier, Visited history usage earlier → earlier.SlotsKept) ↔
      ∀ event ∈ history, ¬event.action.Drops event.before := by
  constructor
  · intro kept event membership drops
    have none := (Usage.slotsKept_iff (run_bounded run)).mp (kept usage (.last _ _))
    rw [run_leaked run] at none
    have positive : 0 < dropped history :=
      List.countP_pos_iff.mpr ⟨event, membership, decide_eq_true drops⟩
    omega
  · intro keeps earlier seen
    have none := run.visitedUnder (fun usage => usage.Bounded ∧ usage.leaked = 0)
      (fun event => ¬event.action.Drops event.before) uses_initial (by
        rintro before action after ⟨bounded, none⟩ keeps stepped
        refine ⟨Usage.step_bounded bounded stepped, ?_⟩
        rw [Usage.step_leaked stepped, none, if_neg keeps, Int.add_zero]) keeps seen
    exact (Usage.slotsKept_iff none.1).mpr none.2

end Uses

/-- One connection; a caller comes while the database is down, another when it
is up again. -/
def outage : List Action :=
  [.get 1 ⟨none, 2006, false⟩, .get 2 ⟨some 9, 0, true⟩]

/-- The second caller is blocked though nothing is lent out. -/
theorem outage_blocks :
    ¬∀ (poolSize : Nat) (created : Nat → Option Connection) (history : List (Event Usage Action))
      (usage : Usage), Run (uses poolSize created) history usage → usage.SlotsKept := by
  intro kept
  have waits := (kept 1 (fun _ => some 4) _ _ ((uses 1 fun _ => some 4).run outage (by decide))).blocked
  revert waits
  decide

/-- A caller takes the only connection, another one waits for it and is woken
when it is released. -/
def handover : List Action :=
  [.get 1 ⟨none, 0, true⟩, .get 2 ⟨none, 0, true⟩, .release 4 (some 2), .resume 2 ⟨none, 2006, true⟩]

theorem handover_slots_kept :
    ∃ history usage, Run (uses 1 fun _ => some 4) history usage ∧
      ((∀ earlier, Visited history usage earlier → earlier.SlotsKept) ↔
        ∀ event ∈ history, ¬event.action.Drops event.before) :=
  have run := (uses 1 fun _ => some 4).run handover (by decide)
  ⟨_, _, run, slots_kept_iff run⟩

end FileServer.Database
