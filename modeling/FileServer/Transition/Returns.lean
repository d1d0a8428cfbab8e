import FileServer.Transition.Guarded
import FileServer.Transition.Program

/-!
# Programs that return

When a program returns, given the answers to its calls, by the parts that it is
made of.
-/

namespace FileServer.Transition

variable {Failure α β : Type}

def Returns (result : Except Failure α) (holds : α → Prop) : Prop :=
  ∃ value, result = .ok value ∧ holds value

@[simp]
theorem returns_ok {value : α} {holds : α → Prop} :
    Returns (.ok value : Except Failure α) holds ↔ holds value := by
  constructor
  · rintro ⟨_, same, held⟩
    exact Except.ok.inj same ▸ held
  · exact fun held => ⟨value, rfl, held⟩

@[simp]
theorem returns_error {failure : Failure} {holds : α → Prop} :
    ¬Returns (.error failure) holds := by
  rintro ⟨_, same, _⟩
  cases same

theorem returns_bind {result : Except Failure α} {next : α → Except Failure β} {holds : β → Prop} :
    Returns (result >>= next) holds ↔ Returns result fun value => Returns (next value) holds := by
  cases result with
  | error failure => simp [bind, Except.bind]
  | ok value => simp [bind, Except.bind]

theorem Returns.congr {result : Except Failure α} {holds holds' : α → Prop}
    (same : ∀ value, result = .ok value → (holds value ↔ holds' value)) :
    Returns result holds ↔ Returns result holds' := by
  constructor
  · rintro ⟨value, returned, held⟩
    exact ⟨value, returned, (same value returned).mp held⟩
  · rintro ⟨value, returned, held⟩
    exact ⟨value, returned, (same value returned).mpr held⟩

namespace Program

variable {Call : Type} {Answer : Call → Type}

def result (answers : (call : Call) → Answer call) (program : Program Call Answer Failure α) :
    Except Failure α :=
  (program.perform (fun call state => (answers call, state)) ()).1

variable {answers : (call : Call) → Answer call} {holds : β → Prop}

@[simp]
theorem result_pure {value : α} :
    (pure value : Program Call Answer Failure α).result answers = .ok value := rfl

@[simp]
theorem result_lift {value : Except Failure α} :
    (liftM value : Program Call Answer Failure α).result answers = value := rfl

@[simp]
theorem result_send {call : Call} {returned : Answer call → Except Failure α} :
    (send call returned).result answers = returned (answers call) := rfl

theorem returns_result_bind {program : Program Call Answer Failure α}
    {next : α → Program Call Answer Failure β} :
    Returns ((program >>= next).result answers) holds ↔
      Returns (program.result answers) fun value => Returns ((next value).result answers) holds := by
  rw [result, perform_bind, result]
  cases program.perform (fun call state => (answers call, state)) () with
  | mk ended state =>
      cases ended with
      | error failure => simp
      | ok value => simp [result]

end Program

end FileServer.Transition
