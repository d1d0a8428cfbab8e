import FileServer.Protocol.Responses
import FileServer.Transition.Returns
import FileServer.Transition.Run
import Mathlib.Data.List.Perm.Basic

/-!
# Replies of a pool

The IO callback reads each frame of a batch and submits a task for it.  A task
sends its response, or ends with an exception that its future keeps.
-/

namespace FileServer.Rpc

open FileServer.Json FileServer.Protocol FileServer.Transition

/-- What is done in the callback and in the pool with a frame; `Work` is what a task
meets. -/
structure Processor (library : Library) where
  Work : Type
  accept : Message → Reads Unit
  process : Message → Work → Reads (Response library)
  replies : ∀ msg work response, process msg work = .ok response →
    response.requestId = msg.header.requestId

/-- The frames of a live connection, with the responses sent on it. -/
structure Pool (library : Library) where
  received : List Message := []
  queued : List Message := []
  sent : List (Response library) := []
  /-- An exception that left the callback. -/
  escaped : Option Exception := none

inductive PoolStep (Work : Type) where
  /-- `OnMessage` for a batch of frames. -/
  | receive (msgs : List Message)
  /-- A worker performs a task of the queue. -/
  | finish (index : Nat) (work : Work)

namespace Processor

variable {library : Library} (processor : Processor library)

/-- The loop of `OnMessage`, which ends at an exception. -/
def submit : List Message → List Message × Option Exception
  | [] => ([], none)
  | msg :: rest =>
      match processor.accept msg with
      | .error exception => ([], some exception)
      | .ok () =>
          let (submitted, escaped) := submit rest
          (msg :: submitted, escaped)

/-- An exception that leaves the callback ends the process. -/
def system : System (Pool library) (PoolStep processor.Work) where
  initial := {}
  step pool action :=
    if pool.escaped.isSome then none
    else
      match action with
      | .receive msgs =>
          let (submitted, escaped) := processor.submit msgs
          some { pool with
            received := pool.received ++ msgs, queued := pool.queued ++ submitted, escaped }
      | .finish index work =>
          match pool.queued[index]? with
          | none => none
          | some msg => some { pool with
              queued := pool.queued.eraseIdx index
              sent := match processor.process msg work with
                | .ok response => pool.sent ++ [response]
                | .error _ => pool.sent }

end Processor

/-- No exception has left the callback, and every frame has one response with its
request id or is still in the queue. -/
def Answered {library : Library} (pool : Pool library) : Prop :=
  pool.escaped = none ∧
    (pool.sent.map (·.requestId) ++ pool.queued.map (·.header.requestId)).Perm
      (pool.received.map (·.header.requestId))

section Runs

variable {library : Library} {processor : Processor library}
  {history : List (Event (Pool library) (PoolStep processor.Work))} {before pool : Pool library}

/-- The frames of a batch can be read, and a task ends with a response. -/
def Meets (ready : Message → Prop) (good : Message → processor.Work → Prop)
    (event : Event (Pool library) (PoolStep processor.Work)) : Prop :=
  match event.action with
  | .receive msgs => ∀ msg ∈ msgs, ready msg
  | .finish index work => ∀ msg, event.before.queued[index]? = some msg → good msg work

/-- The frame of a task, and those of the others. -/
theorem perm_eraseIdx {msgs : List Message} {index : Nat} {msg : Message}
    (found : msgs[index]? = some msg) : msgs.Perm (msg :: msgs.eraseIdx index) := by
  obtain ⟨bound, rfl⟩ := List.getElem?_eq_some_iff.mp found
  exact (List.getElem_cons_eraseIdx_perm bound).symm

theorem submit_all {msgs : List Message} (ready : ∀ msg ∈ msgs, processor.accept msg = .ok ()) :
    processor.submit msgs = (msgs, none) := by
  induction msgs with
  | nil => rfl
  | cons msg rest inductionHypothesis =>
      obtain ⟨readable, others⟩ := List.forall_mem_cons.mp ready
      simp only [Processor.submit, readable, inductionHypothesis others]

theorem submit_escapes {msgs : List Message} (ended : (processor.submit msgs).2 = none) :
    ∀ msg ∈ msgs, processor.accept msg = .ok () := by
  induction msgs with
  | nil => simp
  | cons msg rest inductionHypothesis =>
      simp only [Processor.submit] at ended
      split at ended
      · cases ended
      next readable => exact List.forall_mem_cons.mpr ⟨readable, inductionHypothesis ended⟩

/-- A step keeps every frame answered exactly when its frames can be read and its
task ends with a response. -/
theorem answered_step {action : PoolStep processor.Work} (answered : Answered before)
    (stepped : processor.system.step before action = some pool) :
    Answered pool ↔ Meets (fun msg => processor.accept msg = .ok ())
      (fun msg work => ∃ response, processor.process msg work = .ok response)
      ⟨before, action, pool⟩ := by
  obtain ⟨contained, balanced⟩ := answered
  simp only [Processor.system, contained, Option.isSome_none, Bool.false_eq_true, if_false] at stepped
  cases action with
  | receive msgs =>
      obtain rfl := Option.some.inj stepped
      constructor
      · rintro ⟨ended, _⟩
        exact submit_escapes ended
      · intro ready
        simp only [submit_all ready]
        refine ⟨rfl, ?_⟩
        rw [List.map_append, List.map_append, ← List.append_assoc]
        exact balanced.append_right _
  | finish index work =>
      cases found : before.queued[index]? with
      | none =>
          simp only [found] at stepped
          cases stepped
      | some msg =>
          simp only [found] at stepped
          obtain rfl := Option.some.inj stepped
          have taken := (perm_eraseIdx found).map (·.header.requestId)
          cases processed : processor.process msg work with
          | ok response =>
              have sameId := processor.replies msg work response processed
              refine ⟨fun _ other same => ?_, fun _ => ⟨rfl, ?_⟩⟩
              · rw [found] at same
                exact Option.some.inj same ▸ ⟨response, processed⟩
              · simp only [List.map_append, List.map_cons, List.map_nil, sameId,
                  List.append_assoc, List.singleton_append]
                exact (taken.symm.append_left _).trans balanced
          | error exception =>
              constructor
              · rintro ⟨_, kept⟩
                have lost := kept.length_eq
                have all := balanced.length_eq
                have count := taken.length_eq
                simp only [List.length_append, List.length_map, List.length_cons] at lost all count
                omega
              · intro meets
                obtain ⟨response, other⟩ := meets msg found
                rw [processed] at other
                cases other

/-- In a run every frame stays answered exactly as long as frames can be read and
tasks end with responses. -/
theorem answered_iff (run : Run processor.system history pool) :
    (∀ earlier, Visited history pool earlier → Answered earlier) ↔
      ∀ event ∈ history, Meets (fun msg => processor.accept msg = .ok ())
        (fun msg work => ∃ response, processor.process msg work = .ok response) event := by
  induction run with
  | start =>
      refine ⟨fun _ _ membership => (by cases membership), fun _ => ?_⟩
      rintro earlier (rfl | ⟨_, membership, _⟩)
      · exact ⟨rfl, .refl _⟩
      · cases membership
  | @next history before action after run stepped inductionHypothesis =>
      rw [List.forall_mem_cons]
      constructor
      · intro answered
        have last := answered before (.inr ⟨_, List.mem_cons_self, rfl⟩)
        refine ⟨(answered_step last stepped).mp (answered after (.last _ _)), ?_⟩
        exact inductionHypothesis.mp fun earlier seen => answered earlier (seen.next _)
      · rintro ⟨meets, older⟩
        have answered := inductionHypothesis.mpr older
        have last := answered before (.last _ _)
        rintro earlier (rfl | ⟨event, membership, rfl⟩)
        · exact (answered_step last stepped).mpr meets
        · rcases List.mem_cons.mp membership with rfl | inHistory
          · exact last
          · exact answered event.before (.inr ⟨event, inHistory, rfl⟩)

end Runs

end FileServer.Rpc
