import FileServer.Transition.Guarded

/-!
# Programs that call services

A program issues one call after another and ends with a value or a failure.
What the called services do is not part of it: an execution lists the
exchanges, each a call with its answer and the effect it had, and `serves` says
which answers and effects a call can have.
-/

namespace FileServer.Transition

inductive Program (Call : Type) (Answer : Call → Type) (Failure α : Type) where
  | done (result : Except Failure α)
  | call (request : Call) (next : Answer request → Program Call Answer Failure α)

structure Exchange (Call : Type) (Answer : Call → Type) (Effect : Type) where
  call : Call
  answer : Answer call
  effect : Effect

namespace Program

variable {Call : Type} {Answer : Call → Type} {Failure Effect α β : Type}

def bind : Program Call Answer Failure α → (α → Program Call Answer Failure β) →
    Program Call Answer Failure β
  | .done (.ok value), next => next value
  | .done (.error failure), _ => .done (.error failure)
  | .call request rest, next => .call request fun answer => (rest answer).bind next

def recover : Program Call Answer Failure α → (Failure → Program Call Answer Failure α) →
    Program Call Answer Failure α
  | .done (.ok value), _ => .done (.ok value)
  | .done (.error failure), handler => handler failure
  | .call request rest, handler => .call request fun answer => (rest answer).recover handler

instance : Monad (Program Call Answer Failure) where
  pure value := .done (.ok value)
  bind := bind

instance : MonadLift (Except Failure) (Program Call Answer Failure) where
  monadLift := .done

def send (request : Call) (result : Answer request → Except Failure α) :
    Program Call Answer Failure α :=
  .call request fun answer => .done (result answer)

/-- Run the body for each element in order. -/
def each (body : β → Program Call Answer Failure Unit) :
    List β → Program Call Answer Failure Unit
  | [] => pure ()
  | value :: rest => do
      body value
      each body rest

def capture : Program Call Answer Failure α → Program Call Answer Failure (Except Failure α)
  | .done result => .done (.ok result)
  | .call request next => .call request fun answer => (next answer).capture

/-- The cleanup runs whatever becomes of the body; its failure replaces that of
the body. -/
def ensure (body : Program Call Answer Failure α) (cleanup : Program Call Answer Failure Unit) :
    Program Call Answer Failure α := do
  let result ← body.capture
  cleanup
  liftM result

/-- Run the body for every element, also after one has failed, and fail as the
first of them.  The bodies share nothing, so that their order is immaterial. -/
def all (body : β → Program Call Answer Failure α) : List β → Program Call Answer Failure Unit
  | [] => pure ()
  | value :: rest => do
      let first ← (body value).capture
      let others ← (all body rest).capture
      let _ ← liftM first
      liftM others

section Executions

variable (serves : (request : Call) → Answer request → Effect → Prop)

inductive Executes : Program Call Answer Failure α → List (Exchange Call Answer Effect) →
    Except Failure α → Prop where
  | done {result} : Executes (.done result) [] result
  | call {request next answer effect trace result} : serves request answer effect →
      Executes (next answer) trace result →
      Executes (.call request next) (⟨request, answer, effect⟩ :: trace) result

inductive Issues : Program Call Answer Failure α → List (Exchange Call Answer Effect) →
    Call → Prop where
  | here {request next} : Issues (.call request next) [] request
  | later {request next answer effect trace issued} : serves request answer effect →
      Issues (next answer) trace issued →
      Issues (.call request next) (⟨request, answer, effect⟩ :: trace) issued

end Executions

variable {serves : (request : Call) → Answer request → Effect → Prop}
  {trace : List (Exchange Call Answer Effect)}

@[simp]
theorem executes_done {result last : Except Failure α} :
    Executes serves (.done result) trace last ↔ trace = [] ∧ last = result := by
  constructor
  · intro executed
    cases executed
    exact ⟨rfl, rfl⟩
  · rintro ⟨rfl, rfl⟩
    exact .done

@[simp]
theorem executes_pure {value : α} {last : Except Failure α} :
    Executes serves (pure value) trace last ↔ trace = [] ∧ last = .ok value :=
  executes_done

@[simp]
theorem executes_lift {result last : Except Failure α} :
    Executes serves (liftM result : Program Call Answer Failure α) trace last ↔
      trace = [] ∧ last = result :=
  executes_done

theorem executes_call {request : Call} {next : Answer request → Program Call Answer Failure α}
    {last : Except Failure α} :
    Executes serves (.call request next) trace last ↔
      ∃ answer effect rest, trace = ⟨request, answer, effect⟩ :: rest ∧
        serves request answer effect ∧ Executes serves (next answer) rest last := by
  constructor
  · intro executed
    cases executed with
    | call served continued => exact ⟨_, _, _, rfl, served, continued⟩
  · rintro ⟨answer, effect, rest, rfl, served, continued⟩
    exact .call served continued

theorem executes_send {request : Call} {result : Answer request → Except Failure α}
    {last : Except Failure α} :
    Executes serves (send request result) trace last ↔
      ∃ answer effect, trace = [⟨request, answer, effect⟩] ∧ serves request answer effect ∧
        last = result answer := by
  rw [send, executes_call]
  constructor
  · rintro ⟨answer, effect, rest, rfl, served, continued⟩
    obtain ⟨rfl, rfl⟩ := executes_done.mp continued
    exact ⟨answer, effect, rfl, served, rfl⟩
  · rintro ⟨answer, effect, rfl, served, rfl⟩
    exact ⟨answer, effect, [], rfl, served, .done⟩

theorem executes_bind {first : Program Call Answer Failure α}
    {second : α → Program Call Answer Failure β} {last : Except Failure β} :
    Executes serves (first >>= second) trace last ↔
      (∃ failure, Executes serves first trace (.error failure) ∧ last = .error failure) ∨
      ∃ value earlier later, trace = earlier ++ later ∧
        Executes serves first earlier (.ok value) ∧ Executes serves (second value) later last := by
  show Executes serves (first.bind second) trace last ↔ _
  induction first generalizing trace with
  | done result =>
      cases result with
      | error failure => simp [bind]
      | ok value => simp [bind]
  | call request next inductionHypothesis =>
      simp only [bind, executes_call, inductionHypothesis]
      constructor
      · rintro ⟨answer, effect, rest, rfl, served, failed | continued⟩
        · obtain ⟨failure, executed, rfl⟩ := failed
          exact .inl ⟨failure, ⟨answer, effect, rest, rfl, served, executed⟩, rfl⟩
        · obtain ⟨value, earlier, later, rfl, executed, continued⟩ := continued
          exact .inr ⟨value, _, later, rfl, ⟨answer, effect, earlier, rfl, served, executed⟩,
            continued⟩
      · rintro (failed | continued)
        · obtain ⟨failure, ⟨answer, effect, rest, rfl, served, executed⟩, rfl⟩ := failed
          exact ⟨answer, effect, rest, rfl, served, .inl ⟨failure, executed, rfl⟩⟩
        · obtain ⟨value, _, later, rfl, ⟨answer, effect, earlier, rfl, served, executed⟩,
            continued⟩ := continued
          exact ⟨answer, effect, earlier ++ later, rfl, served,
            .inr ⟨value, earlier, later, rfl, executed, continued⟩⟩

theorem executes_lift_bind {result : Except Failure α}
    {next : α → Program Call Answer Failure β} {last : Except Failure β} :
    Executes serves ((liftM result : Program Call Answer Failure α) >>= next) trace last ↔
      (∃ failure, result = .error failure ∧ trace = [] ∧ last = .error failure) ∨
      ∃ value, result = .ok value ∧ Executes serves (next value) trace last := by
  cases result with
  | error failure => simp [executes_bind]
  | ok value => simp [executes_bind]

theorem executes_send_bind {request : Call} {result : Answer request → Except Failure α}
    {next : α → Program Call Answer Failure β} {last : Except Failure β} :
    Executes serves (send request result >>= next) trace last ↔
      ∃ answer effect rest, trace = ⟨request, answer, effect⟩ :: rest ∧
        serves request answer effect ∧
        ((∃ failure, result answer = .error failure ∧ rest = [] ∧ last = .error failure) ∨
          ∃ value, result answer = .ok value ∧ Executes serves (next value) rest last) := by
  show Executes serves (Program.call request fun answer =>
    (liftM (result answer) : Program Call Answer Failure α) >>= next) trace last ↔ _
  simp only [executes_call, executes_lift_bind]

theorem executes_recover {guarded : Program Call Answer Failure α}
    {handler : Failure → Program Call Answer Failure α} {last : Except Failure α} :
    Executes serves (guarded.recover handler) trace last ↔
      (∃ value, Executes serves guarded trace (.ok value) ∧ last = .ok value) ∨
      ∃ failure earlier later, trace = earlier ++ later ∧
        Executes serves guarded earlier (.error failure) ∧
        Executes serves (handler failure) later last := by
  induction guarded generalizing trace with
  | done result =>
      cases result with
      | error failure => simp [recover]
      | ok value => simp [recover]
  | call request next inductionHypothesis =>
      simp only [recover, executes_call, inductionHypothesis]
      constructor
      · rintro ⟨answer, effect, rest, rfl, served, finished | handled⟩
        · obtain ⟨value, executed, rfl⟩ := finished
          exact .inl ⟨value, ⟨answer, effect, rest, rfl, served, executed⟩, rfl⟩
        · obtain ⟨failure, earlier, later, rfl, executed, handled⟩ := handled
          exact .inr ⟨failure, _, later, rfl, ⟨answer, effect, earlier, rfl, served, executed⟩,
            handled⟩
      · rintro (finished | handled)
        · obtain ⟨value, ⟨answer, effect, rest, rfl, served, executed⟩, rfl⟩ := finished
          exact ⟨answer, effect, rest, rfl, served, .inl ⟨value, executed, rfl⟩⟩
        · obtain ⟨failure, _, later, rfl, ⟨answer, effect, earlier, rfl, served, executed⟩,
            handled⟩ := handled
          exact ⟨answer, effect, earlier ++ later, rfl, served,
            .inr ⟨failure, earlier, later, rfl, executed, handled⟩⟩

theorem Executes.each_mem {body : β → Program Call Answer Failure Unit} {values : List β}
    {last : Except Failure Unit} (executed : Executes serves (each body values) trace last)
    {exchange : Exchange Call Answer Effect} (membership : exchange ∈ trace) :
    ∃ value ∈ values, ∃ part ending, Executes serves (body value) part ending ∧
      exchange ∈ part := by
  induction values generalizing trace with
  | nil =>
      obtain ⟨rfl, _⟩ := executes_pure.mp executed
      cases membership
  | cons value rest inductionHypothesis =>
      rcases executes_bind.mp executed with
        ⟨failure, ended, _⟩ | ⟨_, earlier, later, rfl, ended, continued⟩
      · exact ⟨value, List.mem_cons_self, trace, _, ended, membership⟩
      · rcases List.mem_append.mp membership with inEarlier | inLater
        · exact ⟨value, List.mem_cons_self, earlier, _, ended, inEarlier⟩
        · obtain ⟨other, inRest, found⟩ := inductionHypothesis continued inLater
          exact ⟨other, List.mem_cons_of_mem _ inRest, found⟩

theorem executes_capture {program : Program Call Answer Failure α}
    {last : Except Failure (Except Failure α)} :
    Executes serves program.capture trace last ↔
      ∃ result, last = .ok result ∧ Executes serves program trace result := by
  induction program generalizing trace with
  | done result => simp [capture, and_comm]
  | call request next inductionHypothesis =>
      simp only [capture, executes_call, inductionHypothesis]
      constructor
      · rintro ⟨answer, effect, rest, rfl, served, result, rfl, continued⟩
        exact ⟨result, rfl, answer, effect, rest, rfl, served, continued⟩
      · rintro ⟨result, rfl, answer, effect, rest, rfl, served, continued⟩
        exact ⟨answer, effect, rest, rfl, served, result, rfl, continued⟩

theorem Executes.all_succeed {body : β → Program Call Answer Failure α} {first : β} {rest : List β}
    {value : α} {front back : List (Exchange Call Answer Effect)}
    (here : Executes serves (body first) front (.ok value))
    (others : Executes serves (all body rest) back (.ok ())) :
    Executes serves (all body (first :: rest)) (front ++ back) (.ok ()) := by
  refine executes_bind.mpr (.inr ⟨.ok value, front, back, rfl, executes_capture.mpr
    ⟨.ok value, rfl, here⟩, ?_⟩)
  refine executes_bind.mpr (.inr ⟨.ok (), back, [], (List.append_nil back).symm,
    executes_capture.mpr ⟨.ok (), rfl, others⟩, ?_⟩)
  exact executes_lift_bind.mpr (.inr ⟨value, rfl, executes_lift.mpr ⟨rfl, rfl⟩⟩)

/-- When all bodies succeed, the first does, and then the others. -/
theorem Executes.all_cons {body : β → Program Call Answer Failure α} {first : β} {rest : List β}
    (executed : Executes serves (all body (first :: rest)) trace (.ok ())) :
    ∃ earlier later result, trace = earlier ++ later ∧
      Executes serves (body first) earlier (.ok result) ∧
      Executes serves (all body rest) later (.ok ()) := by
  rcases executes_bind.mp executed with ⟨_, _, failed⟩ | ⟨_, earlier, _, rfl, began, executed⟩
  · cases failed
  obtain ⟨_, same, began⟩ := executes_capture.mp began
  obtain rfl := Except.ok.inj same
  rcases executes_bind.mp executed with ⟨_, _, failed⟩ | ⟨_, later, _, rfl, others, ended⟩
  · cases failed
  obtain ⟨_, same, others⟩ := executes_capture.mp others
  obtain rfl := Except.ok.inj same
  rcases executes_lift_bind.mp ended with ⟨_, _, _, failed⟩ | ⟨result, rfl, ended⟩
  · cases failed
  obtain ⟨rfl, rfl⟩ := executes_lift.mp ended
  exact ⟨earlier, later, result, by rw [List.append_nil], began, others⟩

theorem Executes.all_ok {body : β → Program Call Answer Failure α} {values : List β}
    (executed : Executes serves (all body values) trace (.ok ())) :
    ∀ value ∈ values, ∃ part result, part ⊆ trace ∧ Executes serves (body value) part (.ok result) := by
  induction values generalizing trace with
  | nil => simp
  | cons first rest inductionHypothesis =>
      obtain ⟨earlier, later, result, rfl, began, others⟩ := executed.all_cons
      refine List.forall_mem_cons.mpr ⟨⟨_, _, List.subset_append_left _ _, began⟩, ?_⟩
      intro other membership
      obtain ⟨part, result, inPart, executed⟩ := inductionHypothesis others other membership
      exact ⟨part, result, fun exchange inside => List.mem_append_right _ (inPart inside), executed⟩

theorem Executes.all_filterMap {γ : Type} {select : Exchange Call Answer Effect → Option γ}
    {chosen : β → γ} {body : β → Program Call Answer Failure α} {values : List β}
    (executed : Executes serves (all body values) trace (.ok ()))
    (each : ∀ value part result, Executes serves (body value) part (.ok result) →
      part.filterMap select = [chosen value]) :
    trace.filterMap select = values.map chosen := by
  induction values generalizing trace with
  | nil =>
      obtain ⟨rfl, _⟩ := executes_pure.mp executed
      rfl
  | cons first rest inductionHypothesis =>
      obtain ⟨earlier, later, result, rfl, began, others⟩ := executed.all_cons
      rw [List.filterMap_append, each first earlier result began, inductionHypothesis others]
      rfl

theorem Executes.served {program : Program Call Answer Failure α} {last : Except Failure α}
    (executed : Executes serves program trace last)
    {exchange : Exchange Call Answer Effect} (membership : exchange ∈ trace) :
    serves exchange.call exchange.answer exchange.effect := by
  induction executed with
  | done => cases membership
  | call served _ inductionHypothesis =>
      rcases List.mem_cons.mp membership with rfl | later
      · exact served
      · exact inductionHypothesis later

section Cut

variable {quiet : Effect → Prop}
  (total : ∀ request : Call, ∃ answer effect, serves request answer effect ∧ quiet effect)
include total

theorem exists_executes (program : Program Call Answer Failure α) :
    ∃ trace result, Executes serves program trace result ∧
      ∀ exchange ∈ trace, quiet exchange.effect := by
  induction program with
  | done result => exact ⟨[], result, .done, by simp⟩
  | call request next inductionHypothesis =>
      obtain ⟨answer, effect, served, silent⟩ := total request
      obtain ⟨trace, result, executed, others⟩ := inductionHypothesis answer
      exact ⟨_, result, .call served executed, List.forall_mem_cons.mpr ⟨silent, others⟩⟩

theorem Executes.cut {program : Program Call Answer Failure α} {last : Except Failure α}
    {front back : List (Exchange Call Answer Effect)}
    (executed : Executes serves program (front ++ back) last) :
    ∃ back' last', Executes serves program (front ++ back') last' ∧
      ∀ exchange ∈ back', quiet exchange.effect := by
  induction front generalizing program with
  | nil => exact exists_executes total program
  | cons first rest inductionHypothesis =>
      cases executed with
      | call served continued =>
          obtain ⟨back', last', executed, silent⟩ := inductionHypothesis continued
          exact ⟨back', last', .call served executed, silent⟩

end Cut

def Calls (allowed : Call → Prop) : Program Call Answer Failure α → Prop
  | .done _ => True
  | .call request next => allowed request ∧ ∀ answer, (next answer).Calls allowed

section Calls

variable {allowed : Call → Prop}

@[simp]
theorem calls_pure {value : α} : (pure value : Program Call Answer Failure α).Calls allowed :=
  trivial

theorem Calls.bind {first : Program Call Answer Failure α}
    {second : α → Program Call Answer Failure β} (begins : first.Calls allowed)
    (continues : ∀ value, (second value).Calls allowed) : (first >>= second).Calls allowed := by
  show (first.bind second).Calls allowed
  induction first with
  | done result =>
      cases result with
      | error failure => trivial
      | ok value => exact continues value
  | call request next inductionHypothesis =>
      exact ⟨begins.1, fun answer => inductionHypothesis answer (begins.2 answer)⟩

theorem Calls.recover {guarded : Program Call Answer Failure α}
    {handler : Failure → Program Call Answer Failure α} (begins : guarded.Calls allowed)
    (continues : ∀ failure, (handler failure).Calls allowed) :
    (guarded.recover handler).Calls allowed := by
  induction guarded with
  | done result =>
      cases result with
      | error failure => exact continues failure
      | ok value => trivial
  | call request next inductionHypothesis =>
      exact ⟨begins.1, fun answer => inductionHypothesis answer (begins.2 answer)⟩

theorem Calls.capture {program : Program Call Answer Failure α} (calls : program.Calls allowed) :
    program.capture.Calls allowed := by
  induction program with
  | done result => trivial
  | call request next inductionHypothesis =>
      exact ⟨calls.1, fun answer => inductionHypothesis answer (calls.2 answer)⟩

theorem Calls.lift_bind {result : Except Failure α} {next : α → Program Call Answer Failure β}
    (continues : ∀ value, (next value).Calls allowed) :
    ((liftM result : Program Call Answer Failure α) >>= next).Calls allowed :=
  Calls.bind (show (liftM result : Program Call Answer Failure α).Calls allowed from trivial) continues

theorem Calls.all {body : β → Program Call Answer Failure α} {values : List β}
    (calls : ∀ value ∈ values, (body value).Calls allowed) : (all body values).Calls allowed := by
  induction values with
  | nil => trivial
  | cons first rest inductionHypothesis =>
      refine .bind (.capture (calls first List.mem_cons_self)) fun result => ?_
      refine .bind (.capture (inductionHypothesis fun value inRest =>
        calls value (List.mem_cons_of_mem _ inRest))) fun others => ?_
      exact .lift_bind fun _ => trivial

theorem Calls.executes {program : Program Call Answer Failure α} (calls : program.Calls allowed)
    {last : Except Failure α} (executed : Executes serves program trace last) :
    ∀ exchange ∈ trace, allowed exchange.call := by
  induction executed with
  | done => simp
  | call served _ inductionHypothesis =>
      exact List.forall_mem_cons.mpr ⟨calls.1, inductionHypothesis (calls.2 _)⟩

end Calls

section Runs

variable {State : Type} (serve : (call : Call) → State → Answer call × State)

def perform : Program Call Answer Failure α → State → Except Failure α × State
  | .done result, state => (result, state)
  | .call request next, state =>
      let (answer, state) := serve request state
      (next answer).perform state

variable (state : State)

@[simp]
theorem perform_lift (result : Except Failure α) :
    (liftM result : Program Call Answer Failure α).perform serve state = (result, state) := rfl

@[simp]
theorem perform_send (request : Call) (result : Answer request → Except Failure α) :
    (send request result : Program Call Answer Failure α).perform serve state =
      (result (serve request state).1, (serve request state).2) := rfl

/-- What follows is run on what the first part leaves. -/
theorem perform_bind (first : Program Call Answer Failure α)
    (next : α → Program Call Answer Failure β) :
    (first >>= next).perform serve state =
      match first.perform serve state with
      | (.ok value, state) => (next value).perform serve state
      | (.error failure, state) => (.error failure, state) := by
  show (first.bind next).perform serve state = _
  induction first generalizing state with
  | done result => cases result <;> rfl
  | call request rest inductionHypothesis => exact inductionHypothesis _ _

end Runs

end Program

end FileServer.Transition
