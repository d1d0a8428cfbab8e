import FileServer.Protocol.Calls
import FileServer.Transition.Run

/-!
# The server of the other implementation

`Server` and `Handler` of `wire.py` with the callers of one address.  Each call
opens a connection of its own; the server takes a slot for it or closes it, and
gives the slot back when the thread of the connection is done.
-/

namespace FileServer.Protocol.Wire

open FileServer.Transition

section Conversations

variable {V : Type} (values : Values V)

inductive CallStage (V : Type) where
  | connecting
  | connected
  | waiting
  | ended (result : Except (CallFailure V) (Dict V × Bytes))

inductive ServeStage (V : Type) where
  | absent
  | queued
  /-- No slot was free. -/
  | refused
  /-- A slot is taken, and no thread is started. -/
  | admitted
  | receiving
  | dispatching (fields : Dict V) (data : Bytes) (rid : Nat)
  | responding (result : Dict V) (data : Bytes) (rid : Nat)
  /-- An exception is to be sent. -/
  | apologizing (failure : Failure) (rid : Nat)
  | leaving
  | closed

/-- A slot is taken for the connection. -/
def ServeStage.occupied : ServeStage V → Bool
  | .absent | .queued | .refused | .closed => false
  | .admitted | .receiving | .dispatching .. | .responding .. | .apologizing .. | .leaving => true

/-- A call with its connection. -/
structure Conversation (V : Type) where
  fields : Dict V
  data : Bytes
  caller : CallStage V := .connecting
  up : Bytes := []
  server : ServeStage V := .absent
  /-- What `dispatch` was given, and what it returned or raised. -/
  dispatched : List (Dict V × Bytes × Dispatched V) := []
  down : Bytes := []
  /-- The connection failed when part of a result was written. -/
  cut : Bool := false

inductive ConversationAction (V : Type) where
  | connectFails
  | connect
  /-- `sendall` of the request writes so many bytes, or all. -/
  | send (count : Nat)
  /-- `process_request`. -/
  | accept
  /-- The thread is started, or an exception says that it cannot be. -/
  | spawn (started : Bool)
  /-- The request is received from the parts that have arrived. -/
  | receive (parts : Socket)
  | receiveFails
  | dispatch (work : Dispatched V)
  | respond (count : Nat)
  | apologize (count : Nat)
  /-- An exception that `Handler` does not catch. -/
  | abandon
  /-- The thread comes to its end. -/
  | leave
  | read (parts : Socket)
  | readFails

/-- What happens to the slots. -/
inductive Seat where
  | keep
  | take
  | give
  deriving DecidableEq

namespace Conversation

variable (conversation : Conversation V)

def step (free : Bool) : ConversationAction V → Option (Conversation V × Seat)
  | .connectFails =>
      match conversation.caller with
      | .connecting => some ({ conversation with caller := .ended (.error (.here .other)) }, .keep)
      | _ => none
  | .connect =>
      match conversation.caller with
      | .connecting => some ({ conversation with caller := .connected, server := .queued }, .keep)
      | _ => none
  | .send count =>
      match conversation.caller with
      | .connected =>
          match Wire.send values.toJson conversation.fields conversation.data 1 1 with
          | .error failure => some ({ conversation with caller := .ended (.error (.here failure)) }, .keep)
          | .ok frame => some ({ conversation with
              up := frame.take count
              caller := if frame.length ≤ count then .waiting else .ended (.error (.here .other)) }, .keep)
      | _ => none
  | .accept =>
      match conversation.server with
      | .queued =>
          if free then some ({ conversation with server := .admitted }, .take)
          else some ({ conversation with server := .refused }, .keep)
      | _ => none
  | .spawn started =>
      match conversation.server with
      | .admitted =>
          if started then some ({ conversation with server := .receiving }, .keep)
          else some ({ conversation with server := .closed }, .give)
      | _ => none
  | .receive parts =>
      match conversation.server with
      | .receiving =>
          if parts.flatten <+: conversation.up then
            match Wire.receive values.toJson parts with
            | .error failure => some ({ conversation with server := .apologizing failure 1 }, .keep)
            | .ok ((fields, data, rid), _) =>
                some ({ conversation with server := .dispatching fields data rid }, .keep)
          else none
      | _ => none
  | .receiveFails =>
      match conversation.server with
      | .receiving => some ({ conversation with server := .apologizing .other 1 }, .keep)
      | _ => none
  | .dispatch work =>
      match conversation.server with
      | .dispatching fields data rid => some ({ conversation with
          dispatched := conversation.dispatched ++ [(fields, data, work)]
          server := match work with
            | .ok (result, binary) => .responding result binary rid
            | .error failure => .apologizing failure rid }, .keep)
      | _ => none
  | .respond count =>
      match conversation.server with
      | .responding result data rid =>
          let (fields, binary) := response values (.ok (result, data))
          match Wire.send values.toJson fields binary rid 2 with
          | .error failure => some ({ conversation with server := .apologizing failure rid }, .keep)
          | .ok frame =>
              if frame.length ≤ count then
                some ({ conversation with down := conversation.down ++ frame, server := .leaving }, .keep)
              else
                some ({ conversation with
                  down := conversation.down ++ frame.take count
                  cut := conversation.cut || decide (0 < count)
                  server := .apologizing .other rid }, .keep)
      | _ => none
  | .apologize count =>
      match conversation.server with
      | .apologizing failure rid =>
          match Wire.send values.toJson (apology values failure) [] rid 2 with
          | .error _ => some ({ conversation with server := .leaving }, .keep)
          | .ok frame => some ({ conversation with
              down := conversation.down ++ frame.take count, server := .leaving }, .keep)
      | _ => none
  | .abandon =>
      match conversation.server with
      | .receiving | .dispatching .. | .responding .. | .apologizing .. =>
          some ({ conversation with server := .leaving }, .keep)
      | _ => none
  | .leave =>
      match conversation.server with
      | .leaving => some ({ conversation with server := .closed }, .give)
      | _ => none
  | .read parts =>
      match conversation.caller with
      | .waiting =>
          if parts.flatten <+: conversation.down then
            match Wire.receive values.toJson parts with
            | .error failure => some ({ conversation with caller := .ended (.error (.here failure)) }, .keep)
            | .ok ((result, binary, _), _) => some ({ conversation with
                caller := .ended (conclude values result binary) }, .keep)
          else none
      | _ => none
  | .readFails =>
      match conversation.caller with
      | .waiting => some ({ conversation with caller := .ended (.error (.here .other)) }, .keep)
      | _ => none

/-- What a step can do. -/
inductive Acted (free : Bool) : ConversationAction V → Conversation V → Seat → Prop where
  | fails (action failure) (open_ : ∀ result, conversation.caller ≠ .ended result) :
      Acted free action { conversation with caller := .ended (.error (.here failure)) } .keep
  | connect (connecting : conversation.caller = .connecting) :
      Acted free .connect { conversation with caller := .connected, server := .queued } .keep
  | send (count frame) (connected : conversation.caller = .connected)
      (sent : Wire.send values.toJson conversation.fields conversation.data 1 1 = .ok frame) :
      Acted free (.send count) { conversation with
        up := frame.take count
        caller := if frame.length ≤ count then .waiting else .ended (.error (.here .other)) } .keep
  | acquire (some : free = true) (queued : conversation.server = .queued) :
      Acted free .accept { conversation with server := .admitted } .take
  | refuse (none : free = false) (queued : conversation.server = .queued) :
      Acted free .accept { conversation with server := .refused } .keep
  | spawn (admitted : conversation.server = .admitted) :
      Acted free (.spawn true) { conversation with server := .receiving } .keep
  | spawnFails (admitted : conversation.server = .admitted) :
      Acted free (.spawn false) { conversation with server := .closed } .give
  | receive (parts left fields data rid) (receiving : conversation.server = .receiving)
      (arrived : parts.flatten <+: conversation.up)
      (received : Wire.receive values.toJson parts = .ok ((fields, data, rid), left)) :
      Acted free (.receive parts) { conversation with server := .dispatching fields data rid } .keep
  | garble (parts failure) (receiving : conversation.server = .receiving)
      (received : Wire.receive values.toJson parts = .error failure) :
      Acted free (.receive parts) { conversation with server := .apologizing failure 1 } .keep
  | receiveFails (receiving : conversation.server = .receiving) :
      Acted free .receiveFails { conversation with server := .apologizing .other 1 } .keep
  | dispatch (work fields data rid) (dispatching : conversation.server = .dispatching fields data rid) :
      Acted free (.dispatch work) { conversation with
        dispatched := conversation.dispatched ++ [(fields, data, work)]
        server := match work with
          | .ok (result, binary) => .responding result binary rid
          | .error failure => .apologizing failure rid } .keep
  | respond (count frame result data rid) (responding : conversation.server = .responding result data rid)
      (sent : Wire.send values.toJson (response values (.ok (result, data))).1
        (response values (.ok (result, data))).2 rid 2 = .ok frame) :
      Acted free (.respond count) { conversation with
        down := conversation.down ++ frame, server := .leaving } .keep
  | cutOff (count frame result data rid) (responding : conversation.server = .responding result data rid)
      (sent : Wire.send values.toJson (response values (.ok (result, data))).1
        (response values (.ok (result, data))).2 rid 2 = .ok frame) :
      Acted free (.respond count) { conversation with
        down := conversation.down ++ frame.take count
        cut := conversation.cut || decide (0 < count)
        server := .apologizing .other rid } .keep
  | unsendable (count failure result data rid)
      (responding : conversation.server = .responding result data rid)
      (sent : Wire.send values.toJson (response values (.ok (result, data))).1
        (response values (.ok (result, data))).2 rid 2 = .error failure) :
      Acted free (.respond count) { conversation with server := .apologizing failure rid } .keep
  | apologize (count frame failure rid) (apologizing : conversation.server = .apologizing failure rid)
      (sent : Wire.send values.toJson (apology values failure) [] rid 2 = .ok frame) :
      Acted free (.apologize count) { conversation with
        down := conversation.down ++ frame.take count, server := .leaving } .keep
  | giveUp (action) (occupied : conversation.server.occupied = true)
      (begun : conversation.server ≠ .admitted) (busy : conversation.server ≠ .leaving) :
      Acted free action { conversation with server := .leaving } .keep
  | leave (leaving : conversation.server = .leaving) :
      Acted free .leave { conversation with server := .closed } .give
  | read (parts left result binary rid) (waiting : conversation.caller = .waiting)
      (arrived : parts.flatten <+: conversation.down)
      (received : Wire.receive values.toJson parts = .ok ((result, binary, rid), left)) :
      Acted free (.read parts) { conversation with
        caller := .ended (conclude values result binary) } .keep

theorem acted_of_step {values : Values V} {conversation : Conversation V} {free : Bool}
    {action : ConversationAction V} {next : Conversation V} {seat : Seat}
    (stepped : conversation.step values free action = some (next, seat)) :
    conversation.Acted values free action next seat := by
  cases action with
  | connectFails | connect | readFails =>
      simp only [step] at stepped
      split at stepped
      next stage =>
        obtain ⟨rfl, rfl⟩ := Prod.mk.inj (Option.some.inj stepped)
        first
          | exact .connect stage
          | exact .fails _ _ (by simp [stage])
      · cases stepped
  | send count =>
      simp only [step] at stepped
      split at stepped
      next connected =>
        split at stepped
        · obtain ⟨rfl, rfl⟩ := Prod.mk.inj (Option.some.inj stepped)
          exact .fails _ _ (by simp [connected])
        next frame sent =>
          obtain ⟨rfl, rfl⟩ := Prod.mk.inj (Option.some.inj stepped)
          exact .send count frame connected sent
      · cases stepped
  | accept =>
      simp only [step] at stepped
      split at stepped
      next queued =>
        split at stepped
        next some =>
          obtain ⟨rfl, rfl⟩ := Prod.mk.inj (Option.some.inj stepped)
          exact .acquire some queued
        next none =>
          obtain ⟨rfl, rfl⟩ := Prod.mk.inj (Option.some.inj stepped)
          exact .refuse (Bool.not_eq_true _ ▸ none) queued
      · cases stepped
  | spawn started =>
      simp only [step] at stepped
      split at stepped
      next admitted =>
        cases started with
        | true =>
            obtain ⟨rfl, rfl⟩ := Prod.mk.inj (Option.some.inj stepped)
            exact .spawn admitted
        | false =>
            obtain ⟨rfl, rfl⟩ := Prod.mk.inj (Option.some.inj stepped)
            exact .spawnFails admitted
      · cases stepped
  | receive parts =>
      simp only [step] at stepped
      split at stepped
      next receiving =>
        split at stepped
        next arrived =>
          split at stepped
          next failure received =>
            obtain ⟨rfl, rfl⟩ := Prod.mk.inj (Option.some.inj stepped)
            exact .garble parts failure receiving received
          next fields data rid left received =>
            obtain ⟨rfl, rfl⟩ := Prod.mk.inj (Option.some.inj stepped)
            exact .receive parts left fields data rid receiving arrived received
        · cases stepped
      · cases stepped
  | receiveFails =>
      simp only [step] at stepped
      split at stepped
      next receiving =>
        obtain ⟨rfl, rfl⟩ := Prod.mk.inj (Option.some.inj stepped)
        exact .receiveFails receiving
      · cases stepped
  | dispatch work =>
      simp only [step] at stepped
      split at stepped
      next fields data rid dispatching =>
        obtain ⟨rfl, rfl⟩ := Prod.mk.inj (Option.some.inj stepped)
        exact .dispatch work fields data rid dispatching
      · cases stepped
  | respond count =>
      simp only [step] at stepped
      split at stepped
      next result data rid responding =>
        split at stepped
        next failure sent =>
          obtain ⟨rfl, rfl⟩ := Prod.mk.inj (Option.some.inj stepped)
          exact .unsendable count failure result data rid responding sent
        next frame sent =>
          split at stepped
          · obtain ⟨rfl, rfl⟩ := Prod.mk.inj (Option.some.inj stepped)
            exact .respond count frame result data rid responding sent
          · obtain ⟨rfl, rfl⟩ := Prod.mk.inj (Option.some.inj stepped)
            exact .cutOff count frame result data rid responding sent
      · cases stepped
  | apologize count =>
      simp only [step] at stepped
      split at stepped
      next failure rid apologizing =>
        split at stepped
        · obtain ⟨rfl, rfl⟩ := Prod.mk.inj (Option.some.inj stepped)
          exact .giveUp _ (by simp [apologizing, ServeStage.occupied]) (by simp [apologizing])
            (by simp [apologizing])
        next frame sent =>
          obtain ⟨rfl, rfl⟩ := Prod.mk.inj (Option.some.inj stepped)
          exact .apologize count frame failure rid apologizing sent
      · cases stepped
  | abandon =>
      cases stage : conversation.server with
      | receiving | dispatching | responding | apologizing =>
          simp only [step, stage, Option.some.injEq, Prod.mk.injEq] at stepped
          obtain ⟨rfl, rfl⟩ := stepped
          exact .giveUp _ (by simp [stage, ServeStage.occupied]) (by simp [stage]) (by simp [stage])
      | absent | queued | refused | admitted | leaving | closed => simp [step, stage] at stepped
  | leave =>
      simp only [step] at stepped
      split at stepped
      next leaving =>
        obtain ⟨rfl, rfl⟩ := Prod.mk.inj (Option.some.inj stepped)
        exact .leave leaving
      · cases stepped
  | read parts =>
      simp only [step] at stepped
      split at stepped
      next waiting =>
        split at stepped
        next arrived =>
          split at stepped
          · obtain ⟨rfl, rfl⟩ := Prod.mk.inj (Option.some.inj stepped)
            exact .fails _ _ (by simp [waiting])
          next result binary rid left received =>
            obtain ⟨rfl, rfl⟩ := Prod.mk.inj (Option.some.inj stepped)
            exact .read parts left result binary rid waiting arrived received
        · cases stepped
      · cases stepped

end Conversation

/-- `Server`, with the calls that were made to its address. -/
structure Service (V : Type) where
  slots : Nat
  conversations : List (Conversation V) := []
  /-- `release` of the `BoundedSemaphore` has raised. -/
  overreleased : Bool := false

inductive ServiceAction (V : Type) where
  | call (fields : Dict V) (data : Bytes)
  | act (index : Nat) (action : ConversationAction V)

variable (concurrency : Nat)

/-- The `BoundedSemaphore`. -/
def Service.seat (service : Service V) : Seat → Service V
  | .keep => service
  | .take => { service with slots := service.slots - 1 }
  | .give =>
      if service.slots < concurrency then { service with slots := service.slots + 1 }
      else { service with overreleased := true }

def Service.step (service : Service V) : ServiceAction V → Option (Service V)
  | .call fields data => some { service with
      conversations := service.conversations ++ [{ fields, data }] }
  | .act index action => do
      let conversation ← service.conversations[index]?
      let (next, seat) ← conversation.step values (decide (0 < service.slots)) action
      return { service.seat concurrency seat with
        conversations := service.conversations.set index next }

def service : System (Service V) (ServiceAction V) where
  initial := { slots := concurrency }
  step := Service.step values concurrency

end Conversations

end FileServer.Protocol.Wire
