import FileServer.Transition.Contracts
import FileServer.Transition.Run

/-!
# Servers that stop between two calls

A server boots and then handles one request after another, each by a program
whose calls are performed on a world that outlives the process.  The process
may stop before any call; what the contracts of the programs let every call
preserve holds wherever it stops.
-/

namespace FileServer.Transition

structure Server (Launch Request Inquiry Call : Type) (Answer : Call → Type)
    (Outcome Damage World Process Failure Reply : Type) where
  performs : Performs Call Answer Outcome World
  boot : Launch → Program Call Answer Failure Process
  handler : Process → Request → Program Call Answer Failure Reply
  fail : Damage → World → Option World
  initial : World

structure Task (Request Call : Type) (Answer : Call → Type) (Failure Reply : Type) where
  request : Request
  rest : Program Call Answer Failure Reply

inductive Activity (Request Call : Type) (Answer : Call → Type)
    (Process Failure Reply : Type) where
  | down
  | booting (rest : Program Call Answer Failure Process)
  | serving (process : Process) (task : Option (Task Request Call Answer Failure Reply))

/-- `taken` are the requests taken up so far, newest first. -/
structure Serving (Request Call : Type) (Answer : Call → Type)
    (World Process Failure Reply : Type) where
  world : World
  activity : Activity Request Call Answer Process Failure Reply
  taken : List (Process × Request)

/-- An inquiry reads the world once and may be answered at any time. -/
inductive Turn (Launch Request Inquiry Outcome Damage : Type) where
  | launch (launch : Launch)
  | request (request : Request)
  | inquire (inquiry : Inquiry)
  | proceed (outcome : Outcome)
  | finish
  | fail (damage : Damage)

namespace Server

variable {Launch Request Inquiry Call : Type} {Answer : Call → Type}
  {Outcome Damage World Process Failure Reply : Type}
  (server : Server Launch Request Inquiry Call Answer Outcome Damage World Process Failure Reply)

def step (state : Serving Request Call Answer World Process Failure Reply) :
    Turn Launch Request Inquiry Outcome Damage →
      Option (Serving Request Call Answer World Process Failure Reply)
  | .launch launch =>
      match state.activity with
      | .down => some { state with activity := .booting (server.boot launch) }
      | _ => none
  | .request request =>
      match state.activity with
      | .serving process none =>
          some { state with
            activity := .serving process (some ⟨request, server.handler process request⟩)
            taken := (process, request) :: state.taken }
      | _ => none
  | .inquire _ =>
      match state.activity with
      | .serving _ _ => some state
      | _ => none
  | .proceed outcome =>
      match state.activity with
      | .booting (.call call next) =>
          match server.performs outcome call state.world with
          | some (answer, world) => some { state with world, activity := .booting (next answer) }
          | none => some state
      | .serving process (some ⟨request, .call call next⟩) =>
          match server.performs outcome call state.world with
          | some (answer, world) =>
              some { state with
                world, activity := .serving process (some ⟨request, next answer⟩) }
          | none => some state
      | _ => none
  | .finish =>
      match state.activity with
      | .booting (.done (.ok process)) => some { state with activity := .serving process none }
      | .booting (.done (.error _)) => some { state with activity := .down }
      | .serving process (some ⟨_, .done _⟩) =>
          some { state with activity := .serving process none }
      | _ => none
  | .fail damage =>
      (server.fail damage state.world).map fun world => { state with world, activity := .down }

def system : System (Serving Request Call Answer World Process Failure Reply)
    (Turn Launch Request Inquiry Outcome Damage) where
  initial := ⟨server.initial, .down, []⟩
  step := server.step

/-- What is promised of a server: what holds of the world wherever the process
stops, what the single calls do to it, and what holds when a program ends. -/
structure Promise (Request World Process Failure Reply : Type) where
  Valid : List (Process × Request) → World → Prop
  Booting : World → World → Prop
  Booted : Process → World → Prop
  Handling : Process → Request → World → World → Prop
  Handled : Process → Request → Except Failure Reply → World → Prop

variable (promise : Promise Request World Process Failure Reply)

/-- The obligations under which the promise is kept in every run. -/
structure Upholds : Prop where
  initially : promise.Valid [] server.initial
  taken : ∀ taken request world, promise.Valid taken world → promise.Valid (request :: taken) world
  boots : ∀ taken launch world, promise.Valid taken world →
    (server.boot launch).Keeps server.performs
      (fun before after => promise.Booting before after ∧ promise.Valid taken after)
      (Setting.onResult promise.Booted fun _ _ => True) world
  handles : ∀ taken process request world, promise.Valid taken world →
    (process, request) ∈ taken →
    (server.handler process request).Keeps server.performs
      (fun before after => promise.Handling process request before after ∧
        promise.Valid taken after)
      (promise.Handled process request) world
  fails : ∀ taken damage world after, promise.Valid taken world →
    server.fail damage world = some after → promise.Valid taken after

/-- What is still to come of a running program. -/
def Pending (state : Serving Request Call Answer World Process Failure Reply) :
    Activity Request Call Answer Process Failure Reply → Prop
  | .down => True
  | .booting rest => rest.Keeps server.performs
      (fun before after => promise.Booting before after ∧ promise.Valid state.taken after)
      (Setting.onResult promise.Booted fun _ _ => True) state.world
  | .serving _ none => True
  | .serving process (some task) =>
      task.rest.Keeps server.performs
        (fun before after => promise.Handling process task.request before after ∧
          promise.Valid state.taken after)
        (promise.Handled process task.request) state.world

/-- The invariant of the runs. -/
structure Sound (state : Serving Request Call Answer World Process Failure Reply) : Prop where
  valid : promise.Valid state.taken state.world
  pending : server.Pending promise state state.activity

variable {server promise} {before after : Serving Request Call Answer World Process Failure Reply}

theorem step_proceed {outcome : Outcome} (stepped : server.step before (.proceed outcome) = some after) :
    after = before ∨
      (∃ call next answer, before.activity = .booting (.call call next) ∧
        server.performs outcome call before.world = some (answer, after.world) ∧
        after = { before with world := after.world, activity := .booting (next answer) }) ∨
      ∃ process request call next answer,
        before.activity = .serving process (some ⟨request, .call call next⟩) ∧
        server.performs outcome call before.world = some (answer, after.world) ∧
        after = { before with
          world := after.world, activity := .serving process (some ⟨request, next answer⟩) } := by
  simp only [step] at stepped
  split at stepped
  next call next active =>
    split at stepped
    next answer world performed =>
      cases stepped
      exact .inr (.inl ⟨call, next, answer, active, performed, rfl⟩)
    · cases stepped
      exact .inl rfl
  next process request call next active =>
    split at stepped
    next answer world performed =>
      cases stepped
      exact .inr (.inr ⟨process, request, call, next, answer, active, performed, rfl⟩)
    · cases stepped
      exact .inl rfl
  · cases stepped

theorem Sound.step (upholds : server.Upholds promise) (sound : server.Sound promise before)
    {turn : Turn Launch Request Inquiry Outcome Damage}
    (stepped : server.step before turn = some after) : server.Sound promise after := by
  cases turn with
  | launch launch =>
      simp only [Server.step] at stepped
      split at stepped
      · cases stepped
        exact ⟨sound.valid, upholds.boots _ launch _ sound.valid⟩
      · cases stepped
  | request request =>
      simp only [Server.step] at stepped
      split at stepped
      next process active =>
        cases stepped
        have valid := upholds.taken _ (process, request) _ sound.valid
        exact ⟨valid, upholds.handles _ process request _ valid List.mem_cons_self⟩
      · cases stepped
  | inquire inquiry =>
      simp only [Server.step] at stepped
      split at stepped
      · cases stepped
        exact sound
      · cases stepped
  | proceed outcome =>
      have pending := sound.pending
      rcases step_proceed stepped with rfl | ⟨call, next, answer, active, performed, same⟩ |
        ⟨process, request, call, next, answer, active, performed, same⟩
      · exact sound
      · rw [active] at pending
        obtain ⟨⟨_, valid⟩, continued⟩ := pending outcome answer _ performed
        rw [same]
        exact ⟨valid, continued⟩
      · rw [active] at pending
        obtain ⟨⟨_, valid⟩, continued⟩ := pending outcome answer _ performed
        rw [same]
        exact ⟨valid, continued⟩
  | finish =>
      simp only [Server.step] at stepped
      split at stepped
      · cases stepped
        exact ⟨sound.valid, trivial⟩
      · cases stepped
        exact ⟨sound.valid, trivial⟩
      · cases stepped
        exact ⟨sound.valid, trivial⟩
      · cases stepped
  | fail damage =>
      obtain ⟨world, failed, rfl⟩ := Option.map_eq_some_iff.mp stepped
      exact ⟨upholds.fails _ damage _ _ sound.valid failed, trivial⟩

variable {history : List (Event (Serving Request Call Answer World Process Failure Reply)
    (Turn Launch Request Inquiry Outcome Damage))}
  {state : Serving Request Call Answer World Process Failure Reply}

theorem sound_of_run (upholds : server.Upholds promise) (run : Run server.system history state) :
    server.Sound promise state := by
  have initially : server.Sound promise server.system.initial := ⟨upholds.initially, trivial⟩
  exact run.invariant (server.Sound promise) initially fun _ _ _ sound stepped =>
    sound.step upholds stepped

theorem sound_of_reachable (upholds : server.Upholds promise)
    (reached : Reachable server.system state) : server.Sound promise state :=
  reached.elim fun _ run => sound_of_run upholds run

theorem Sound.change (sound : server.Sound promise before)
    {turn : Turn Launch Request Inquiry Outcome Damage}
    (stepped : server.step before turn = some after) :
    after.world = before.world ∨
      (∃ rest, before.activity = .booting rest ∧ promise.Booting before.world after.world) ∨
      (∃ process task, before.activity = .serving process (some task) ∧
        promise.Handling process task.request before.world after.world) ∨
      ∃ damage, turn = .fail damage ∧ server.fail damage before.world = some after.world := by
  cases turn with
  | launch launch =>
      simp only [Server.step] at stepped
      split at stepped
      · exact .inl (by rw [← Option.some.inj stepped])
      · cases stepped
  | request request =>
      simp only [Server.step] at stepped
      split at stepped
      · exact .inl (by rw [← Option.some.inj stepped])
      · cases stepped
  | inquire inquiry =>
      simp only [Server.step] at stepped
      split at stepped
      · exact .inl (by rw [← Option.some.inj stepped])
      · cases stepped
  | proceed outcome =>
      have pending := sound.pending
      rcases step_proceed stepped with rfl | ⟨call, next, answer, active, performed, _⟩ |
        ⟨process, request, call, next, answer, active, performed, _⟩
      · exact .inl rfl
      · rw [active] at pending
        exact .inr (.inl ⟨_, active, (pending outcome answer _ performed).1.1⟩)
      · rw [active] at pending
        exact .inr (.inr (.inl ⟨process, _, active, (pending outcome answer _ performed).1.1⟩))
  | finish =>
      simp only [Server.step] at stepped
      split at stepped
      · exact .inl (by rw [← Option.some.inj stepped])
      · exact .inl (by rw [← Option.some.inj stepped])
      · exact .inl (by rw [← Option.some.inj stepped])
      · cases stepped
  | fail damage =>
      obtain ⟨world, failed, rfl⟩ := Option.map_eq_some_iff.mp stepped
      exact .inr (.inr (.inr ⟨damage, rfl, failed⟩))

theorem Sound.booted (sound : server.Sound promise before) {process : Process}
    (active : before.activity = .booting (.done (.ok process))) :
    promise.Booted process before.world := by
  have pending := sound.pending
  rw [active] at pending
  exact pending

theorem Sound.handled (sound : server.Sound promise before) {process : Process}
    {request : Request} {result : Except Failure Reply}
    (active : before.activity = .serving process (some ⟨request, .done result⟩)) :
    promise.Handled process request result before.world := by
  have pending := sound.pending
  rw [active] at pending
  exact pending

end Server

end FileServer.Transition
