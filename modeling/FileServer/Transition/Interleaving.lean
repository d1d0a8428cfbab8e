import FileServer.Transition.Contracts
import FileServer.Transition.Run

/-!
# Interleaved programs

Requests are handled by programs whose calls are performed one at a time on a
shared world, in any order.  A front issues requests for its orders; a request
it has given up on is still handled.  Contracts of the single programs hold in
every interleaving when what one of them relies on is kept by each step of the
others.
-/

namespace FileServer.Transition

structure Performed (Call : Type) (Answer : Call → Type) where
  call : Call
  answer : Answer call

/-- The shared world and the calls performed so far, newest first. -/
structure Scene (Call : Type) (Answer : Call → Type) (World : Type) where
  world : World
  journal : List (Performed Call Answer)

/-- What handles requests and orders.  An outcome of the environment decides
how a call is performed, and a request may be lost on its way. -/
structure Deployment (Request Order Call : Type) (Answer : Call → Type)
    (Outcome World Failure Reply : Type) where
  serve : Outcome → (call : Call) → World → Answer call × World
  handler : Request → Program Call Answer Failure Reply
  refusal : Failure → Reply
  front : Order → Program Request (fun _ => Reply) Failure Reply
  lost : Bool → Reply
  direct : Request → Bool
  initial : World

structure Job (Request Call : Type) (Answer : Call → Type) (Failure Reply : Type) where
  request : Request
  rest : Program Call Answer Failure Reply

/-- An order under way, and the job it waits for. -/
structure Session (Request Order Failure Reply : Type) where
  order : Order
  rest : Program Request (fun _ => Reply) Failure Reply
  waiting : Option Nat

structure Interleaved (Request Order Call : Type) (Answer : Call → Type)
    (World Failure Reply : Type) where
  scene : Scene Call Answer World
  jobs : List (Job Request Call Answer Failure Reply)
  sessions : List (Session Request Order Failure Reply)

inductive Move (Request Order Outcome : Type) where
  | request (request : Request)
  | advance (job : Nat) (outcome : Outcome)
  | order (order : Order)
  | deliver (session : Nat)
  | answer (session : Nat)
  | abandon (session : Nat) (timedOut : Bool)

namespace Deployment

variable {Request Order Call : Type} {Answer : Call → Type} {Outcome World Failure Reply : Type}
  (deployment : Deployment Request Order Call Answer Outcome World Failure Reply)

def perform (outcome : Outcome) (call : Call) (scene : Scene Call Answer World) :
    Answer call × Scene Call Answer World :=
  let (answer, world) := deployment.serve outcome call scene.world
  (answer, ⟨world, ⟨call, answer⟩ :: scene.journal⟩)

def reply : Except Failure Reply → Reply
  | .ok reply => reply
  | .error failure => deployment.refusal failure

def run [Inhabited Outcome] {α : Type} : List Outcome → Program Call Answer Failure α → World →
    Except Failure α × World
  | _, .done result, world => (result, world)
  | outcomes, .call call next, world =>
      let (answer, world) := deployment.serve (outcomes.headD default) call world
      run outcomes.tail (next answer) world

def step (state : Interleaved Request Order Call Answer World Failure Reply) :
    Move Request Order Outcome →
      Option (Interleaved Request Order Call Answer World Failure Reply)
  | .request request =>
      if deployment.direct request then
        some { state with jobs := state.jobs ++ [⟨request, deployment.handler request⟩] }
      else none
  | .advance job outcome =>
      match state.jobs[job]? with
      | some ⟨request, .call call next⟩ =>
          let (answer, scene) := deployment.perform outcome call state.scene
          some { state with scene, jobs := state.jobs.set job ⟨request, next answer⟩ }
      | _ => none
  | .order order =>
      some { state with sessions := state.sessions ++ [⟨order, deployment.front order, none⟩] }
  | .deliver session =>
      match state.sessions[session]? with
      | some ⟨order, .call request next, none⟩ =>
          some { state with
            jobs := state.jobs ++ [⟨request, deployment.handler request⟩]
            sessions := state.sessions.set session
              ⟨order, .call request next, some state.jobs.length⟩ }
      | _ => none
  | .answer session =>
      match state.sessions[session]? with
      | some ⟨order, .call _ next, some job⟩ =>
          match state.jobs[job]? with
          | some ⟨_, .done result⟩ =>
              some { state with
                sessions := state.sessions.set session
                  ⟨order, next (deployment.reply result), none⟩ }
          | _ => none
      | _ => none
  | .abandon session timedOut =>
      match state.sessions[session]? with
      | some ⟨order, .call _ next, _⟩ =>
          some { state with
            sessions := state.sessions.set session
              ⟨order, next (deployment.lost timedOut), none⟩ }
      | _ => none

def system : System (Interleaved Request Order Call Answer World Failure Reply)
    (Move Request Order Outcome) where
  initial := ⟨⟨deployment.initial, []⟩, [], []⟩
  step := deployment.step

section Steps

variable {deployment} {before after : Interleaved Request Order Call Answer World Failure Reply}

theorem scene_of_step {move : Move Request Order Outcome}
    (stepped : deployment.step before move = some after) :
    after.scene = before.scene ∨ ∃ job outcome request call next,
      move = .advance job outcome ∧ before.jobs[job]? = some ⟨request, .call call next⟩ ∧
        after.scene = (deployment.perform outcome call before.scene).2 := by
  cases move with
  | request request =>
      simp only [step] at stepped
      split at stepped
      · exact .inl (by rw [← Option.some.inj stepped])
      · cases stepped
  | advance job outcome =>
      simp only [step] at stepped
      split at stepped
      next request call next found =>
        exact .inr ⟨job, outcome, request, call, next, rfl, found, by
          rw [← Option.some.inj stepped]⟩
      · cases stepped
  | order order => exact .inl (by rw [← Option.some.inj stepped])
  | deliver session =>
      simp only [step] at stepped
      split at stepped
      · exact .inl (by rw [← Option.some.inj stepped])
      · cases stepped
  | answer session =>
      simp only [step] at stepped
      split at stepped
      · split at stepped
        · exact .inl (by rw [← Option.some.inj stepped])
        · cases stepped
      · cases stepped
  | abandon session timedOut =>
      simp only [step] at stepped
      split at stepped
      · exact .inl (by rw [← Option.some.inj stepped])
      · cases stepped

theorem step_advance_iff {job : Nat} {outcome : Outcome} :
    deployment.step before (.advance job outcome) = some after ↔ ∃ request call next,
      before.jobs[job]? = some ⟨request, .call call next⟩ ∧
        after = { before with
          scene := (deployment.perform outcome call before.scene).2
          jobs := before.jobs.set job
            ⟨request, next (deployment.perform outcome call before.scene).1⟩ } := by
  simp only [step]
  constructor
  · intro stepped
    split at stepped
    next request call next found =>
      exact ⟨request, call, next, found, (Option.some.inj stepped).symm⟩
    · cases stepped
  · rintro ⟨request, call, next, found, rfl⟩
    rw [found]

theorem step_of_no_orders [IsEmpty Order] (alone : before.sessions = [])
    {move : Move Request Order Outcome} (stepped : deployment.step before move = some after) :
    (∃ request, move = .request request ∧ deployment.direct request = true ∧
      after = { before with jobs := before.jobs ++ [⟨request, deployment.handler request⟩] }) ∨
    ∃ job outcome request call next, move = .advance job outcome ∧
      before.jobs[job]? = some ⟨request, .call call next⟩ ∧
      after = { before with
        scene := (deployment.perform outcome call before.scene).2
        jobs := before.jobs.set job
          ⟨request, next (deployment.perform outcome call before.scene).1⟩ } := by
  cases move with
  | request request =>
      simp only [step] at stepped
      split at stepped
      next accepted =>
        cases stepped
        exact .inl ⟨request, rfl, accepted, rfl⟩
      · cases stepped
  | advance job outcome =>
      obtain ⟨request, call, next, found, rfl⟩ := step_advance_iff.mp stepped
      exact .inr ⟨job, outcome, request, call, next, rfl, found, rfl⟩
  | order order => exact isEmptyElim order
  | deliver session => simp [step, alone] at stepped
  | answer session => simp [step, alone] at stepped
  | abandon session timedOut => simp [step, alone] at stepped

theorem sessions_eq_nil [IsEmpty Order] {history : List (Event _ _)}
    {state : Interleaved Request Order Call Answer World Failure Reply}
    (run : Run deployment.system history state) : state.sessions = [] := by
  refine run.invariant (fun state => state.sessions = []) rfl ?_
  intro before move after alone stepped
  rcases step_of_no_orders alone stepped with ⟨_, _, _, rfl⟩ | ⟨_, _, _, _, _, _, _, rfl⟩
  · exact alone
  · exact alone

theorem job_of_step [IsEmpty Order] (alone : before.sessions = [])
    {move : Move Request Order Outcome} (stepped : deployment.step before move = some after)
    {index : Nat} {job : Job Request Call Answer Failure Reply}
    (found : before.jobs[index]? = some job) :
    ∃ rest, after.jobs[index]? = some ⟨job.request, rest⟩ ∧
      ∀ result, job.rest = .done result → rest = .done result := by
  have inside := (List.getElem?_eq_some_iff.mp found).1
  rcases step_of_no_orders alone stepped with
    ⟨request, _, _, rfl⟩ | ⟨other, outcome, request, call, next, _, current, rfl⟩
  · refine ⟨job.rest, ?_, fun _ finished => finished⟩
    rw [List.getElem?_append_left inside, found]
  · by_cases same : other = index
    · subst same
      obtain rfl := Option.some.inj (current.symm.trans found)
      exact ⟨_, List.getElem?_set_self inside, fun result finished => by cases finished⟩
    · refine ⟨job.rest, ?_, fun _ finished => finished⟩
      rw [List.getElem?_set_ne same, found]

theorem calls_of_run {allowed : Request → Call → Prop}
    (handled : ∀ request, (deployment.handler request).Calls (allowed request))
    {history : List (Event _ _)}
    {state : Interleaved Request Order Call Answer World Failure Reply}
    (run : Run deployment.system history state) :
    ∀ job ∈ state.jobs, job.rest.Calls (allowed job.request) := by
  refine run.invariant (fun state => ∀ job ∈ state.jobs, job.rest.Calls (allowed job.request))
    (by simp [system]) ?_
  intro before move after sound stepped
  have issued : ∀ request, ∀ job ∈ before.jobs ++ [⟨request, deployment.handler request⟩],
      job.rest.Calls (allowed job.request) := by
    intro request
    rw [List.forall_mem_append]
    exact ⟨sound, by simpa using handled request⟩
  cases move with
  | request request =>
      simp only [system, step] at stepped
      split at stepped
      · cases stepped
        exact issued request
      · cases stepped
  | advance job outcome =>
      obtain ⟨request, call, next, found, rfl⟩ := step_advance_iff.mp stepped
      intro other membership
      rcases List.mem_or_eq_of_mem_set membership with old | rfl
      · exact sound other old
      · exact (sound _ (List.mem_of_getElem? found)).2 _
  | order order =>
      cases stepped
      exact sound
  | deliver session =>
      simp only [system, step] at stepped
      split at stepped
      · cases stepped
        exact issued _
      · cases stepped
  | answer session =>
      simp only [system, step] at stepped
      split at stepped
      · split at stepped
        · cases stepped
          exact sound
        · cases stepped
      · cases stepped
  | abandon session timedOut =>
      simp only [system, step] at stepped
      split at stepped
      · cases stepped
        exact sound
      · cases stepped

end Steps

end Deployment

/-- What programs rely on and guarantee: what holds of every scene, how scenes
change, the calls a request may perform, when it may be issued, and what holds
once it has been handled. -/
structure Discipline (Request Call : Type) (Answer : Call → Type) (World Failure Reply : Type) where
  Valid : Scene Call Answer World → Prop
  Later : Scene Call Answer World → Scene Call Answer World → Prop
  Allowed : Request → Call → Scene Call Answer World → Prop
  Issued : Request → Scene Call Answer World → Prop
  Handled : Request → Except Failure Reply → Scene Call Answer World → Prop

namespace Discipline

variable {Request Order Call : Type} {Answer : Call → Type} {Outcome World Failure Reply : Type}
  {α β : Type}
  (discipline : Discipline Request Call Answer World Failure Reply)
  (deployment : Deployment Request Order Call Answer Outcome World Failure Reply)

def Assured (request : Request) : Program Call Answer Failure α →
    (Except Failure α → Scene Call Answer World → Prop) → Scene Call Answer World → Prop
  | .done result, post, scene => post result scene
  | .call call next, post, scene => ∀ later, discipline.Later scene later → discipline.Valid later →
      discipline.Allowed request call later ∧ ∀ outcome,
        Assured request (next (deployment.perform outcome call later).1) post
          (deployment.perform outcome call later).2

def Answered : Program Request (fun _ => Reply) Failure Reply → Scene Call Answer World → Prop
  | .done _, _ => True
  | .call request next, scene => ∀ later, discipline.Later scene later → discipline.Valid later →
      discipline.Issued request later ∧ ∀ reply,
        ((∃ timedOut, reply = deployment.lost timedOut) ∨
          ∃ result, discipline.Handled request result later ∧ reply = deployment.reply result) →
        Answered (next reply) later

/-- What holds of every scene is kept by the calls that are allowed. -/
structure Coherent : Prop where
  refl : ∀ scene, discipline.Later scene scene
  trans : ∀ first second third, discipline.Later first second → discipline.Later second third →
    discipline.Later first third
  initially : discipline.Valid ⟨deployment.initial, []⟩
  performed : ∀ request call outcome scene, discipline.Valid scene →
    discipline.Allowed request call scene →
    discipline.Valid (deployment.perform outcome call scene).2 ∧
      discipline.Later scene (deployment.perform outcome call scene).2
  stable : ∀ request result scene later, discipline.Later scene later →
    discipline.Handled request result scene → discipline.Handled request result later

/-- The obligations under which the contracts hold in every interleaving. -/
structure Kept : Prop extends discipline.Coherent deployment where
  direct : ∀ request scene, deployment.direct request = true → discipline.Valid scene →
    discipline.Issued request scene
  handled : ∀ request scene, discipline.Valid scene → discipline.Issued request scene →
    discipline.Assured deployment request (deployment.handler request)
      (discipline.Handled request) scene
  ordered : ∀ order scene, discipline.Valid scene →
    discipline.Answered deployment (deployment.front order) scene

variable {discipline deployment} {request : Request} {program : Program Call Answer Failure α}
  {post post' : Except Failure α → Scene Call Answer World → Prop} {scene : Scene Call Answer World}

theorem assured_bind {next : α → Program Call Answer Failure β}
    {post : Except Failure β → Scene Call Answer World → Prop} :
    discipline.Assured deployment request (program >>= next) post scene ↔
      discipline.Assured deployment request program
        (Setting.onResult (fun value => discipline.Assured deployment request (next value) post)
          fun failure => post (.error failure)) scene := by
  show discipline.Assured deployment request (program.bind next) post scene ↔ _
  induction program generalizing scene with
  | done result => cases result <;> rfl
  | call call rest inductionHypothesis =>
      simp only [Program.bind, Assured, inductionHypothesis]

theorem assured_lift_bind {result : Except Failure α} {next : α → Program Call Answer Failure β}
    {post : Except Failure β → Scene Call Answer World → Prop} :
    discipline.Assured deployment request
        ((liftM result : Program Call Answer Failure α) >>= next) post scene ↔
      Setting.onResult (fun value => discipline.Assured deployment request (next value) post)
        (fun failure => post (.error failure)) result scene :=
  assured_bind

section Stability

variable (coherent : discipline.Coherent deployment)
include coherent

theorem Coherent.call {call : Call} {next : Answer call → Program Call Answer Failure α}
    (allowed : ∀ later, discipline.Later scene later → discipline.Valid later →
      discipline.Allowed request call later)
    (continued : ∀ later outcome, discipline.Later scene later → discipline.Valid later →
      discipline.Later scene (deployment.perform outcome call later).2 →
      discipline.Assured deployment request (next (deployment.perform outcome call later).1)
        post (deployment.perform outcome call later).2) :
    discipline.Assured deployment request (.call call next) post scene := by
  intro later follows valid
  have permitted := allowed later follows valid
  refine ⟨permitted, fun outcome => continued later outcome follows valid ?_⟩
  exact coherent.trans _ _ _ follows (coherent.performed request call outcome later valid permitted).2

theorem Assured.later
    (stable : ∀ result scene later, discipline.Later scene later → post result scene →
      post result later)
    {later : Scene Call Answer World} (follows : discipline.Later scene later)
    (assured : discipline.Assured deployment request program post scene) :
    discipline.Assured deployment request program post later := by
  cases program with
  | done result => exact stable result scene later follows assured
  | call call next =>
      exact fun final further => assured final (coherent.trans _ _ _ follows further)

theorem Answered.later {front : Program Request (fun _ => Reply) Failure Reply}
    {later : Scene Call Answer World} (follows : discipline.Later scene later)
    (answered : discipline.Answered deployment front scene) :
    discipline.Answered deployment front later := by
  cases front with
  | done => trivial
  | call request next =>
      exact fun final further => answered final (coherent.trans _ _ _ follows further)

end Stability

variable (discipline deployment) in
/-- Every job keeps its contract, and every session waits for a job that
handles its request. -/
structure Sound (state : Interleaved Request Order Call Answer World Failure Reply) : Prop where
  valid : discipline.Valid state.scene
  jobs : ∀ job ∈ state.jobs, discipline.Assured deployment job.request job.rest
    (discipline.Handled job.request) state.scene
  sessions : ∀ session ∈ state.sessions, discipline.Answered deployment session.rest state.scene
  waiting : ∀ session ∈ state.sessions, ∀ index, session.waiting = some index →
    ∃ request next job, session.rest = .call request next ∧ state.jobs[index]? = some job ∧
      job.request = request

section Runs

variable (kept : discipline.Kept deployment)
  {before after : Interleaved Request Order Call Answer World Failure Reply}
include kept

theorem Sound.issue (sound : discipline.Sound deployment before)
    (issued : discipline.Issued request before.scene) :
    discipline.Sound deployment
      { before with jobs := before.jobs ++ [⟨request, deployment.handler request⟩] } where
  valid := sound.valid
  jobs := by
    rw [List.forall_mem_append]
    exact ⟨sound.jobs, by simpa using kept.handled request _ sound.valid issued⟩
  sessions := sound.sessions
  waiting := by
    intro session membership index waits
    obtain ⟨request, next, job, rest, found, same⟩ := sound.waiting session membership index waits
    refine ⟨request, next, job, rest, ?_, same⟩
    rw [List.getElem?_append_left (List.getElem?_eq_some_iff.mp found).1]
    exact found

omit kept in
theorem Sound.resume (sound : discipline.Sound deployment before) (index : Nat)
    (session : Session Request Order Failure Reply)
    (answered : discipline.Answered deployment session.rest before.scene)
    (waiting : ∀ index, session.waiting = some index → ∃ request next job,
      session.rest = .call request next ∧ before.jobs[index]? = some job ∧
        job.request = request) :
    discipline.Sound deployment
      { before with sessions := before.sessions.set index session } where
  valid := sound.valid
  jobs := sound.jobs
  sessions := by
    intro other membership
    rcases List.mem_or_eq_of_mem_set membership with old | rfl
    · exact sound.sessions other old
    · exact answered
  waiting := by
    intro other membership
    rcases List.mem_or_eq_of_mem_set membership with old | rfl
    · exact sound.waiting other old
    · exact waiting

theorem Sound.advance (sound : discipline.Sound deployment before) {index : Nat} {call : Call}
    {next : Answer call → Program Call Answer Failure Reply} (outcome : Outcome)
    (found : before.jobs[index]? = some ⟨request, .call call next⟩) :
    discipline.Sound deployment
        { before with
          scene := (deployment.perform outcome call before.scene).2
          jobs := before.jobs.set index
            ⟨request, next (deployment.perform outcome call before.scene).1⟩ } ∧
      discipline.Later before.scene (deployment.perform outcome call before.scene).2 := by
  have assured := sound.jobs _ (List.mem_of_getElem? found) _ (kept.refl _) sound.valid
  have performed := kept.performed request call outcome _ sound.valid assured.1
  refine ⟨⟨performed.1, ?_, ?_, ?_⟩, performed.2⟩
  · intro job membership
    rcases List.mem_or_eq_of_mem_set membership with old | rfl
    · exact (sound.jobs job old).later kept.toCoherent (kept.stable _) performed.2
    · exact assured.2 outcome
  · exact fun session membership => (sound.sessions session membership).later kept.toCoherent performed.2
  · intro session membership position waits
    obtain ⟨waited, rest, job, same, inJobs, handles⟩ :=
      sound.waiting session membership position waits
    by_cases advanced : index = position
    · subst advanced
      have equal := Option.some.inj (found.symm.trans inJobs)
      refine ⟨waited, rest, _, same, List.getElem?_set_self (List.getElem?_eq_some_iff.mp found).1, ?_⟩
      rw [← handles, ← equal]
    · exact ⟨waited, rest, job, same, by rwa [List.getElem?_set_ne advanced], handles⟩

theorem Sound.step (sound : discipline.Sound deployment before) {move : Move Request Order Outcome}
    (stepped : deployment.step before move = some after) :
    discipline.Sound deployment after ∧ discipline.Later before.scene after.scene := by
  cases move with
  | request request =>
      simp only [Deployment.step] at stepped
      split at stepped
      next accepted =>
        cases stepped
        exact ⟨sound.issue kept (kept.direct _ _ accepted sound.valid), kept.refl _⟩
      · cases stepped
  | advance job outcome =>
      simp only [Deployment.step] at stepped
      split at stepped
      next request call next found =>
        cases stepped
        exact sound.advance kept outcome found
      · cases stepped
  | order order =>
      cases stepped
      refine ⟨⟨sound.valid, sound.jobs, ?_, ?_⟩, kept.refl _⟩
      · rw [List.forall_mem_append]
        exact ⟨sound.sessions, by simpa using kept.ordered order _ sound.valid⟩
      · rw [List.forall_mem_append]
        exact ⟨sound.waiting, by simp⟩
  | deliver session =>
      simp only [Deployment.step] at stepped
      split at stepped
      next order request next found =>
        cases stepped
        have answered := sound.sessions _ (List.mem_of_getElem? found)
        have issued := (answered _ (kept.refl _) sound.valid).1
        refine ⟨(sound.issue kept issued).resume session _ answered ?_, kept.refl _⟩
        rintro index waits
        cases waits
        exact ⟨request, next, _, rfl, List.getElem?_concat_length, rfl⟩
      · cases stepped
  | answer session =>
      simp only [Deployment.step] at stepped
      split at stepped
      next order request next job found =>
        split at stepped
        next handled result finished =>
          cases stepped
          have membership := List.mem_of_getElem? found
          obtain ⟨waited, rest, waitedJob, same, inJobs, handles⟩ :=
            sound.waiting _ membership job rfl
          cases same
          obtain rfl := Option.some.inj (finished.symm.trans inJobs)
          cases handles
          have answered := (sound.sessions _ membership _ (kept.refl _) sound.valid).2 _
            (.inr ⟨result, sound.jobs _ (List.mem_of_getElem? finished), rfl⟩)
          exact ⟨sound.resume session _ answered (by simp), kept.refl _⟩
        · cases stepped
      · cases stepped
  | abandon session timedOut =>
      simp only [Deployment.step] at stepped
      split at stepped
      next order request next waiting found =>
        cases stepped
        have answered := (sound.sessions _ (List.mem_of_getElem? found) _ (kept.refl _)
          sound.valid).2 _ (.inl ⟨timedOut, rfl⟩)
        exact ⟨sound.resume session _ answered (by simp), kept.refl _⟩
      · cases stepped

theorem sound_of_run {history : List (Event _ _)}
    {state : Interleaved Request Order Call Answer World Failure Reply}
    (run : Run deployment.system history state) : discipline.Sound deployment state :=
  run.invariant (discipline.Sound deployment)
    ⟨kept.initially, by simp [Deployment.system], by simp [Deployment.system],
      by simp [Deployment.system]⟩
    fun _ _ _ sound stepped => (sound.step kept stepped).1

theorem later_of_run {history : List (Event _ _)}
    {state earlier : Interleaved Request Order Call Answer World Failure Reply}
    (run : Run deployment.system history state) (seen : Visited history state earlier) :
    discipline.Later earlier.scene state.scene :=
  run.visited (fun first second => discipline.Later first.scene second.scene)
    (fun _ => kept.refl _) (fun _ _ _ => kept.trans _ _ _)
    (fun _ _ _ ⟨_, earlierRun⟩ stepped => ((sound_of_run kept earlierRun).step kept stepped).2) seen

end Runs

end Discipline

end FileServer.Transition
