import FileServer.Transition.Run

/-!
# Records of runs and steps that come to an end

A record collects what each event of a history contributes, oldest first.
Steps of a kind that lower a measure come to an end, whatever their order.
-/

namespace FileServer.Transition

universe u v w

variable {State : Type u} {Action : Type v}

def recorded {α : Type w} (contribution : Event State Action → List α)
    (history : List (Event State Action)) : List α :=
  history.reverse.flatMap contribution

@[simp]
theorem recorded_nil {α : Type w} (contribution : Event State Action → List α) :
    recorded contribution [] = [] := rfl

@[simp]
theorem recorded_cons {α : Type w} (contribution : Event State Action → List α)
    (event : Event State Action) (history : List (Event State Action)) :
    recorded contribution (event :: history) = recorded contribution history ++ contribution event := by
  simp [recorded]

theorem System.execute_append {system : System State Action} {state middle : State}
    {earlier later : List Action} (executed : system.execute state earlier = some middle) :
    system.execute state (earlier ++ later) = system.execute middle later := by
  induction earlier generalizing state with
  | nil => rw [List.nil_append, Option.some.inj executed]
  | cons action rest inductionHypothesis =>
      simp only [System.execute, Option.bind_eq_some_iff] at executed
      obtain ⟨next, stepped, executed⟩ := executed
      rw [List.cons_append, System.execute, stepped]
      exact inductionHypothesis executed

theorem Run.component {Part : Type u} {PartAction : Type v} {system : System State Action}
    {part : System Part PartAction} {view : State → Part}
    {contribution : Event State Action → List PartAction}
    (begins : view system.initial = part.initial)
    (follows : ∀ before action after, system.step before action = some after →
      part.execute (view before) (contribution ⟨before, action, after⟩) = some (view after))
    {history : List (Event State Action)} {state : State} (run : Run system history state) :
    ∃ partHistory, Run part partHistory (view state) ∧
      ∀ event ∈ partHistory, event.action ∈ recorded contribution history := by
  have executed : part.execute part.initial (recorded contribution history) = some (view state) := by
    induction run with
    | start => rw [recorded_nil, System.execute, begins]
    | next run stepped inductionHypothesis =>
        rw [recorded_cons, System.execute_append inductionHypothesis]
        exact follows _ _ _ stepped
  refine ⟨_, Run.start.execute _ executed, fun event membership => ?_⟩
  rw [List.append_nil] at membership
  exact System.action_mem_of_mem_events membership

namespace System

variable (system : System State Action)

structure Lowers (kind : Action → Prop) (Valid : State → Prop) (measure : State → Nat) : Prop where
  keeps : ∀ before action after, Valid before → kind action →
    system.step before action = some after → Valid after
  lowers : ∀ before action after, Valid before → kind action →
    system.step before action = some after → measure after < measure before

variable {system} {kind : Action → Prop} {Valid : State → Prop} {measure : State → Nat}

theorem Lowers.length_le (lowers : system.Lowers kind Valid measure) {state last : State}
    (valid : Valid state) {actions : List Action} (kinds : ∀ action ∈ actions, kind action)
    (executed : system.execute state actions = some last) :
    actions.length + measure last ≤ measure state := by
  induction actions generalizing state with
  | nil =>
      obtain rfl := Option.some.inj executed
      exact Nat.le_of_eq (Nat.zero_add _)
  | cons action rest inductionHypothesis =>
      simp only [execute, Option.bind_eq_some_iff] at executed
      obtain ⟨next, stepped, executed⟩ := executed
      obtain ⟨first, later⟩ := List.forall_mem_cons.mp kinds
      have less := lowers.lowers state action next valid first stepped
      have bound := inductionHypothesis (lowers.keeps state action next valid first stepped) later
        executed
      rw [List.length_cons]
      omega

end System

end FileServer.Transition
