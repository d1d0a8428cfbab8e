import Mathlib.Tactic.Common

/-!
# Runs of a partial transition system

A history lists the events of a run, newest first.  Invariants are proved by
the two induction rules `Run.invariant` and `Run.historyInvariant`; properties
of the past are stated with `Since`.
-/

namespace FileServer.Transition

universe u v

/-- `step state action` is the next state, when the action is enabled. -/
structure System (State : Type u) (Action : Type v) where
  initial : State
  step : State → Action → Option State

structure Event (State : Type u) (Action : Type v) where
  before : State
  action : Action
  after : State

variable {State : Type u} {Action : Type v}

inductive Run (system : System State Action) : List (Event State Action) → State → Prop where
  | start : Run system [] system.initial
  | next {history before action after} :
      Run system history before → system.step before action = some after →
      Run system (⟨before, action, after⟩ :: history) after

def Reachable (system : System State Action) (state : State) : Prop :=
  ∃ history, Run system history state

/-- An event of the past satisfied `start`, the history before it `prior`, and
every later event `kept`. -/
def Since (kept start : Event State Action → Prop) (prior : List (Event State Action) → Prop) :
    List (Event State Action) → Prop
  | [] => False
  | event :: history => (start event ∧ prior history) ∨ (kept event ∧ Since kept start prior history)

/-- The states a run to `state` has been in. -/
def Visited (history : List (Event State Action)) (state earlier : State) : Prop :=
  earlier = state ∨ ∃ event ∈ history, event.before = earlier

theorem Visited.last (history : List (Event State Action)) (state : State) :
    Visited history state state := .inl rfl

theorem Visited.next {history : List (Event State Action)} {state after earlier : State}
    (seen : Visited history state earlier) (action : Action) :
    Visited (⟨state, action, after⟩ :: history) after earlier := by
  rcases seen with rfl | ⟨event, membership, rfl⟩
  · exact .inr ⟨_, List.mem_cons_self, rfl⟩
  · exact .inr ⟨event, List.mem_cons_of_mem _ membership, rfl⟩

theorem visited_cons {event : Event State Action} {history : List (Event State Action)}
    {state earlier : State} : Visited (event :: history) state earlier ↔
      earlier = state ∨ Visited history event.before earlier := by
  simp [Visited, eq_comm]

def System.execute (system : System State Action) : State → List Action → Option State
  | state, [] => some state
  | state, action :: rest => (system.step state action).bind fun next => system.execute next rest

def System.Leads (system : System State Action) (state last : State) : Prop :=
  ∃ actions, system.execute state actions = some last

theorem System.Leads.trans {system : System State Action} {state middle last : State}
    (earlier : system.Leads state middle) (later : system.Leads middle last) :
    system.Leads state last := by
  obtain ⟨actions, executed⟩ := earlier
  obtain ⟨actions', executed'⟩ := later
  refine ⟨actions ++ actions', ?_⟩
  induction actions generalizing state with
  | nil =>
      obtain rfl := Option.some.inj executed
      exact executed'
  | cons action rest inductionHypothesis =>
      simp only [System.execute, Option.bind_eq_some_iff] at executed
      obtain ⟨next, stepped, executed⟩ := executed
      rw [List.cons_append, System.execute, stepped]
      exact inductionHypothesis executed

def System.events (system : System State Action) :
    State → List Action → List (Event State Action)
  | _, [] => []
  | state, action :: rest =>
      match system.step state action with
      | some next => system.events next rest ++ [⟨state, action, next⟩]
      | none => []

theorem System.action_mem_of_mem_events {system : System State Action} {state : State}
    {actions : List Action} {event : Event State Action}
    (membership : event ∈ system.events state actions) : event.action ∈ actions := by
  induction actions generalizing state with
  | nil => simp [System.events] at membership
  | cons action rest inductionHypothesis =>
      simp only [System.events] at membership
      split at membership
      · rcases List.mem_append.mp membership with later | first
        · exact List.mem_cons_of_mem _ (inductionHypothesis later)
        · exact List.mem_singleton.mp first ▸ List.mem_cons_self
      · cases membership

namespace Run

variable {system : System State Action}

theorem reachable {history : List (Event State Action)} {state : State}
    (run : Run system history state) : Reachable system state := ⟨history, run⟩

theorem last_eq {history : List (Event State Action)} {state other : State}
    (run : Run system history state) (again : Run system history other) : state = other := by
  cases run with
  | start => cases again with | start => rfl
  | next => cases again with | next => rfl

theorem invariant (Invariant : State → Prop) (initially : Invariant system.initial)
    (preserved : ∀ before action after, Invariant before →
      system.step before action = some after → Invariant after)
    {history : List (Event State Action)} {state : State} (run : Run system history state) :
    Invariant state := by
  induction run with
  | start => exact initially
  | next _ stepped inductionHypothesis => exact preserved _ _ _ inductionHypothesis stepped

theorem historyInvariant (Invariant : List (Event State Action) → State → Prop)
    (initially : Invariant [] system.initial)
    (preserved : ∀ history before action after, Run system history before →
      Invariant history before → system.step before action = some after →
      Invariant (⟨before, action, after⟩ :: history) after)
    {history : List (Event State Action)} {state : State} (run : Run system history state) :
    Invariant history state := by
  induction run with
  | start => exact initially
  | next earlier stepped inductionHypothesis =>
      exact preserved _ _ _ _ earlier inductionHypothesis stepped

theorem invariantUnder (Invariant : State → Prop) (Condition : Event State Action → Prop)
    (initially : Invariant system.initial)
    (preserved : ∀ before action after, Invariant before → Condition ⟨before, action, after⟩ →
      system.step before action = some after → Invariant after)
    {history : List (Event State Action)} {state : State} (run : Run system history state)
    (conditions : ∀ event ∈ history, Condition event) : Invariant state := by
  induction run with
  | start => exact initially
  | next _ stepped inductionHypothesis =>
      exact preserved _ _ _
        (inductionHypothesis fun event membership => conditions event (by simp [membership]))
        (conditions _ (by simp)) stepped

theorem visitedUnder (Invariant : State → Prop) (Condition : Event State Action → Prop)
    (initially : Invariant system.initial)
    (preserved : ∀ before action after, Invariant before → Condition ⟨before, action, after⟩ →
      system.step before action = some after → Invariant after)
    {history : List (Event State Action)} {state earlier : State} (run : Run system history state)
    (conditions : ∀ event ∈ history, Condition event) (seen : Visited history state earlier) :
    Invariant earlier := by
  induction run generalizing earlier with
  | start =>
      rcases seen with rfl | ⟨_, membership, _⟩
      · exact initially
      · cases membership
  | next older stepped inductionHypothesis =>
      have before := fun event membership => conditions event (List.mem_cons_of_mem _ membership)
      rcases seen with rfl | ⟨event, membership, rfl⟩
      · have holds := inductionHypothesis before (.last _ _)
        exact preserved _ _ _ holds (conditions _ List.mem_cons_self) stepped
      · rcases List.mem_cons.mp membership with rfl | inHistory
        · exact inductionHypothesis before (.last _ _)
        · exact inductionHypothesis before (.inr ⟨event, inHistory, rfl⟩)

theorem visited (Related : State → State → Prop) (reflexive : ∀ state, Related state state)
    (transitive : ∀ first second third, Related first second → Related second third →
      Related first third)
    (related : ∀ before action after, Reachable system before →
      system.step before action = some after → Related before after)
    {history : List (Event State Action)} {state earlier : State} (run : Run system history state)
    (seen : Visited history state earlier) : Related earlier state := by
  rcases seen with rfl | ⟨event, membership, rfl⟩
  · exact reflexive _
  induction run with
  | start => simp at membership
  | next older stepped inductionHypothesis =>
      have last := related _ _ _ older.reachable stepped
      rcases List.mem_cons.mp membership with rfl | inHistory
      · exact last
      · exact transitive _ _ _ (inductionHypothesis inHistory) last

theorem event {history : List (Event State Action)} {state : State}
    (run : Run system history state) {event : Event State Action} (membership : event ∈ history) :
    Reachable system event.before ∧ system.step event.before event.action = some event.after := by
  induction run with
  | start => simp at membership
  | next earlier stepped inductionHypothesis =>
      rcases List.mem_cons.mp membership with rfl | older
      · exact ⟨earlier.reachable, stepped⟩
      · exact inductionHypothesis older

theorem visitedAfter {history : List (Event State Action)} {state : State}
    (run : Run system history state) {event : Event State Action} (membership : event ∈ history) :
    Visited history state event.after := by
  induction run with
  | start => simp at membership
  | next earlier stepped inductionHypothesis =>
      rcases List.mem_cons.mp membership with rfl | older
      · exact .last _ _
      · exact (inductionHypothesis older).next _

theorem reached {history : List (Event State Action)} {state earlier : State}
    (run : Run system history state) (seen : Visited history state earlier) :
    Reachable system earlier := by
  rcases seen with rfl | ⟨event, membership, rfl⟩
  · exact run.reachable
  · exact (run.event membership).1

theorem execute {history : List (Event State Action)} {state last : State}
    (run : Run system history state) (actions : List Action)
    (executed : system.execute state actions = some last) :
    Run system (system.events state actions ++ history) last := by
  induction actions generalizing history state with
  | nil =>
      simp only [System.execute, Option.some.injEq] at executed
      subst last
      exact run
  | cons action rest inductionHypothesis =>
      simp only [System.execute, Option.bind_eq_some_iff] at executed
      obtain ⟨next, stepped, executed⟩ := executed
      simpa [System.events, stepped] using inductionHypothesis (run.next stepped) executed

theorem leads {history : List (Event State Action)} {state last earlier : State}
    (run : Run system history state) (seen : Visited history state earlier)
    (leads : system.Leads state last) :
    ∃ history', Run system history' last ∧ Visited history' last earlier := by
  obtain ⟨actions, executed⟩ := leads
  induction actions generalizing history state with
  | nil =>
      simp only [System.execute, Option.some.injEq] at executed
      subst last
      exact ⟨history, run, seen⟩
  | cons action rest inductionHypothesis =>
      simp only [System.execute, Option.bind_eq_some_iff] at executed
      obtain ⟨next, stepped, executed⟩ := executed
      exact inductionHypothesis (run.next stepped) (seen.next action) executed

theorem since (P : State → Prop) {later earlier : List (Event State Action)}
    {event : Event State Action} {state : State}
    (run : Run system (later ++ event :: earlier) state) (initially : P event.after)
    (kept : ∀ other ∈ later, P other.before → P other.after) :
    P state ∧ ∀ other ∈ later, P other.before := by
  induction later generalizing state with
  | nil =>
      cases run with
      | next => exact ⟨initially, by simp⟩
  | cons head tail inductionHypothesis =>
      cases run with
      | next run stepped =>
          obtain ⟨held, before⟩ := inductionHypothesis run fun other membership =>
            kept other (List.mem_cons_of_mem _ membership)
          exact ⟨kept _ List.mem_cons_self held, List.forall_mem_cons.mpr ⟨held, before⟩⟩

theorem split {later earlier : List (Event State Action)} {event : Event State Action}
    {state : State} (run : Run system (later ++ event :: earlier) state) :
    Run system earlier event.before ∧ system.step event.before event.action = some event.after := by
  induction later generalizing state with
  | nil =>
      cases run with
      | next before stepped => exact ⟨before, stepped⟩
  | cons head tail inductionHypothesis =>
      cases run with
      | next before stepped => exact inductionHypothesis before

end Run

/-- Two events of a history are the same, or one of them comes first. -/
theorem events_ordered {later earlier later' earlier' : List (Event State Action)}
    {event event' : Event State Action}
    (same : later ++ event :: earlier = later' ++ event' :: earlier') :
    event = event' ∨ event' ∈ earlier ∨ event ∈ earlier' := by
  rcases List.append_eq_append_iff.mp same with ⟨between, rfl, rest⟩ | ⟨between, rfl, rest⟩
  · cases between with
    | nil => exact .inl (List.cons.inj rest).1
    | cons first others => exact .inr (.inl (by simp [(List.cons.inj rest).2]))
  · cases between with
    | nil => exact .inl (List.cons.inj rest).1.symm
    | cons first others => exact .inr (.inr (by simp [(List.cons.inj rest).2]))

theorem Reachable.invariant {system : System State Action} (Invariant : State → Prop)
    (initially : Invariant system.initial)
    (preserved : ∀ before action after, Invariant before →
      system.step before action = some after → Invariant after)
    {state : State} (reached : Reachable system state) : Invariant state :=
  reached.elim fun _ run => run.invariant Invariant initially preserved

theorem Reachable.next {system : System State Action} {state after : State} {action : Action}
    (reached : Reachable system state) (stepped : system.step state action = some after) :
    Reachable system after :=
  reached.elim fun _ run => ⟨_, run.next stepped⟩

theorem System.run (system : System State Action) (actions : List Action)
    (enabled : (system.execute system.initial actions).isSome) :
    Run system (system.events system.initial actions)
      ((system.execute system.initial actions).get enabled) := by
  simpa using Run.start.execute actions (Option.some_get enabled).symm

theorem since_iff {kept start : Event State Action → Prop}
    {prior : List (Event State Action) → Prop} {history : List (Event State Action)} :
    Since kept start prior history ↔
      ∃ later event earlier, history = later ++ event :: earlier ∧ start event ∧ prior earlier ∧
        ∀ event ∈ later, kept event := by
  induction history with
  | nil => simp [Since]
  | cons head tail inductionHypothesis =>
      simp only [Since, inductionHypothesis]
      constructor
      · rintro (⟨begun, before⟩ | ⟨keptHead, later, event, earlier, rfl, begun, before, keptLater⟩)
        · exact ⟨[], head, tail, rfl, begun, before, by simp⟩
        · refine ⟨head :: later, event, earlier, rfl, begun, before, ?_⟩
          exact List.forall_mem_cons.mpr ⟨keptHead, keptLater⟩
      · rintro ⟨later, event, earlier, equality, begun, before, keptLater⟩
        cases later with
        | nil =>
            cases equality
            exact Or.inl ⟨begun, before⟩
        | cons first rest =>
            cases equality
            refine Or.inr ⟨keptLater _ (by simp), rest, event, earlier, rfl, begun, before, ?_⟩
            exact fun other membership => keptLater other (by simp [membership])

end FileServer.Transition
