import FileServer.Transition.Program

/-!
# Programs on two states

A program agrees on two states when it ends with the same result on both, in
states that are related again.
-/

namespace FileServer.Transition.Program

variable {Call : Type} {Answer : Call → Type} {Failure State α β : Type}
  {serve : (call : Call) → State → Answer call × State}

/-- From both states the program has one result, and `after` relates what it leaves. -/
def Agrees (serve : (call : Call) → State → Answer call × State)
    (after : Except Failure α → State → State → Prop) (program : Program Call Answer Failure α)
    (state other : State) : Prop :=
  ∃ result last last', program.perform serve state = (result, last) ∧
    program.perform serve other = (result, last') ∧ after result last last'

variable {after : Except Failure α → State → State → Prop} {state other : State}

theorem agrees_done {result : Except Failure α} (holds : after result state other) :
    Agrees serve after (.done result) state other :=
  ⟨result, state, other, rfl, rfl, holds⟩

theorem agrees_call {request : Call} {next : Answer request → Program Call Answer Failure α}
    (same : (serve request state).1 = (serve request other).1)
    (continues : Agrees serve after (next (serve request state).1) (serve request state).2
      (serve request other).2) :
    Agrees serve after (.call request next) state other := by
  obtain ⟨result, last, last', ran, ran', holds⟩ := continues
  refine ⟨result, last, last', ran, ?_, holds⟩
  rw [same] at ran'
  exact ran'

theorem Agrees.bind {middle : Except Failure β → State → State → Prop}
    {first : Program Call Answer Failure β} {next : β → Program Call Answer Failure α}
    (agrees : Agrees serve middle first state other)
    (fails : ∀ failure last last', middle (.error failure) last last' →
      after (.error failure) last last')
    (continues : ∀ value last last', middle (.ok value) last last' →
      Agrees serve after (next value) last last') :
    Agrees serve after (first >>= next) state other := by
  obtain ⟨result, last, last', ran, ran', holds⟩ := agrees
  cases result with
  | error failure =>
      refine ⟨.error failure, last, last', ?_, ?_, fails failure last last' holds⟩
      · rw [perform_bind, ran]
      · rw [perform_bind, ran']
  | ok value =>
      obtain ⟨result, final, final', finished, finished', holds⟩ :=
        continues value last last' holds
      refine ⟨result, final, final', ?_, ?_, holds⟩
      · rw [perform_bind, ran]
        exact finished
      · rw [perform_bind, ran']
        exact finished'

theorem agrees_send_bind {request : Call} {result : Answer request → Except Failure β}
    {next : β → Program Call Answer Failure α}
    (same : (serve request state).1 = (serve request other).1)
    (fails : ∀ failure, result (serve request state).1 = .error failure →
      after (.error failure) (serve request state).2 (serve request other).2)
    (continues : ∀ value, result (serve request state).1 = .ok value →
      Agrees serve after (next value) (serve request state).2 (serve request other).2) :
    Agrees serve after (send request result >>= next) state other := by
  apply agrees_call same
  show Agrees serve after ((liftM (result (serve request state).1) :
    Program Call Answer Failure β) >>= next) _ _
  cases returned : result (serve request state).1 with
  | error failure => exact agrees_done (fails failure returned)
  | ok value => exact continues value returned

theorem agrees_lift_bind {result : Except Failure β} {next : β → Program Call Answer Failure α}
    (fails : ∀ failure, after (.error failure) state other)
    (continues : ∀ value, result = .ok value → Agrees serve after (next value) state other) :
    Agrees serve after ((liftM result : Program Call Answer Failure β) >>= next) state other := by
  cases result with
  | error failure => exact agrees_done (fails failure)
  | ok value => exact continues value rfl

theorem agrees_of_calls {allowed : Call → Prop} {related : State → State → Prop}
    {program : Program Call Answer Failure α} (calls : program.Calls allowed)
    (keeps : ∀ call, allowed call → ∀ state other, related state other →
      (serve call state).1 = (serve call other).1 ∧
        related (serve call state).2 (serve call other).2)
    (holds : related state other) :
    Agrees serve (fun _ => related) program state other := by
  induction program generalizing state other with
  | done result => exact agrees_done holds
  | call request next inductionHypothesis =>
      obtain ⟨same, holds⟩ := keeps request calls.1 state other holds
      exact agrees_call same (inductionHypothesis _ (calls.2 _) holds)

end FileServer.Transition.Program
