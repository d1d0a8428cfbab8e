import FileServer.Transition.Program

/-!
# Contracts of programs

A contract is checked over all ways to perform the calls of a program on a
world: it bounds what every single call does, wherever the program stops, and
says what holds when the program ends.
-/

namespace FileServer.Transition

namespace Setting

variable {State Failure α : Type}

def onResult (value : α → State → Prop) (failed : Failure → State → Prop) :
    Except Failure α → State → Prop
  | .ok result, state => value result state
  | .error failure, state => failed failure state

end Setting

abbrev Performs (Call : Type) (Answer : Call → Type) (Outcome World : Type) :=
  Outcome → (call : Call) → World → Option (Answer call × World)

namespace Program

variable {Call : Type} {Answer : Call → Type} {Failure Outcome World α β : Type}

section Keeps

variable (performs : Performs Call Answer Outcome World) (effect : World → World → Prop)

def Keeps : Program Call Answer Failure α → (Except Failure α → World → Prop) → World → Prop
  | .done result, post, world => post result world
  | .call request next, post, world => ∀ outcome answer after,
      performs outcome request world = some (answer, after) →
        effect world after ∧ (next answer).Keeps post after

end Keeps

variable {performs : Performs Call Answer Outcome World} {effect effect' : World → World → Prop}
  {program : Program Call Answer Failure α} {post post' : Except Failure α → World → Prop}
  {world : World}

theorem Keeps.mono (keeps : Keeps performs effect program post world)
    (weaker : ∀ result world, post result world → post' result world) :
    Keeps performs effect program post' world := by
  induction program generalizing world with
  | done result => exact weaker result world keeps
  | call request next inductionHypothesis =>
      intro outcome answer after performed
      obtain ⟨allowed, continued⟩ := keeps outcome answer after performed
      exact ⟨allowed, inductionHypothesis answer continued⟩

theorem Keeps.widen (keeps : Keeps performs effect program post world)
    (wider : ∀ before after, effect before after → effect' before after) :
    Keeps performs effect' program post world := by
  induction program generalizing world with
  | done result => exact keeps
  | call request next inductionHypothesis =>
      intro outcome answer after performed
      obtain ⟨allowed, continued⟩ := keeps outcome answer after performed
      exact ⟨wider _ _ allowed, inductionHypothesis answer continued⟩

theorem keeps_bind {next : α → Program Call Answer Failure β}
    {post : Except Failure β → World → Prop} :
    Keeps performs effect (program >>= next) post world ↔
      Keeps performs effect program (Setting.onResult
        (fun value => Keeps performs effect (next value) post)
        fun failure => post (.error failure)) world := by
  show Keeps performs effect (program.bind next) post world ↔ _
  induction program generalizing world with
  | done result => cases result <;> rfl
  | call request rest inductionHypothesis => simp only [bind, Keeps, inductionHypothesis]

/-- A check continues where it holds. -/
theorem keeps_lift_bind {result : Except Failure α} {next : α → Program Call Answer Failure β}
    {post : Except Failure β → World → Prop} :
    Keeps performs effect ((liftM result : Program Call Answer Failure α) >>= next) post world ↔
      Setting.onResult (fun value => Keeps performs effect (next value) post)
        (fun failure => post (.error failure)) result world :=
  keeps_bind

theorem keeps_recover {handler : Failure → Program Call Answer Failure α} :
    Keeps performs effect (program.recover handler) post world ↔
      Keeps performs effect program (Setting.onResult (fun value => post (.ok value))
        fun failure => Keeps performs effect (handler failure) post) world := by
  induction program generalizing world with
  | done result => cases result <;> rfl
  | call request rest inductionHypothesis => simp only [recover, Keeps, inductionHypothesis]

theorem keeps_capture {post : Except Failure (Except Failure α) → World → Prop} :
    Keeps performs effect program.capture post world ↔
      Keeps performs effect program (fun result => post (.ok result)) world := by
  induction program generalizing world with
  | done result => rfl
  | call request rest inductionHypothesis => simp only [capture, Keeps, inductionHypothesis]

theorem keeps_ensure {cleanup : Program Call Answer Failure Unit} :
    Keeps performs effect (program.ensure cleanup) post world ↔
      Keeps performs effect program (fun result => Keeps performs effect cleanup
        (Setting.onResult (fun _ => post result) fun failure => post (.error failure))) world := by
  rw [ensure, keeps_bind, keeps_capture]
  have continued : ∀ result after,
      Keeps performs effect (cleanup >>= fun _ => liftM result) post after ↔
        Keeps performs effect cleanup (Setting.onResult (fun _ => post result)
          fun failure => post (.error failure)) after := fun _ _ => keeps_bind
  constructor
  · exact fun keeps => keeps.mono fun result after => (continued result after).mp
  · exact fun keeps => keeps.mono fun result after => (continued result after).mpr

/-- What holds before each element of a loop and after it. -/
theorem Keeps.each {body : β → Program Call Answer Failure Unit} {values : List β}
    {post : Except Failure Unit → World → Prop} (invariant : List β → World → Prop)
    (step : ∀ value rest world, invariant (value :: rest) world →
      Keeps performs effect (body value) (Setting.onResult (fun _ => invariant rest)
        fun failure => post (.error failure)) world)
    (finish : ∀ world, invariant [] world → post (.ok ()) world)
    (initially : invariant values world) :
    Keeps performs effect (Program.each body values) post world := by
  induction values generalizing world with
  | nil => exact finish world initially
  | cons value rest inductionHypothesis =>
      refine keeps_bind.mpr ((step value rest world initially).mono ?_)
      intro result world held
      cases result with
      | error failure => exact held
      | ok _ => exact inductionHypothesis held

end Program

end FileServer.Transition
