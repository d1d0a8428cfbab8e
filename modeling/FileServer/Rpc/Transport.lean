import FileServer.Rpc.Link
import Mathlib.Data.List.Perm.Subperm

/-!
# What a link transports

Frames reach the pool in the order the loop sends them, responses reach the
client in the order the workers send them, and nothing else arrives.
-/

namespace FileServer.Rpc

open FileServer.Json FileServer.Protocol FileServer.Transition
open scoped List

variable {library : Library} {processor : Processor library} {caller : Caller library}

def LinkAction.own? {Request Work : Type} : LinkAction Request Work → Option ClientAction
  | .fetchId index => some (.fetchId index)
  | .throws index => some (.throws index)
  | .setPending index => some (.setPending index)
  | .timeout index => some (.timeout index)
  | .erase index => some (.erase index)
  | .get index => some (.get index)
  | _ => none

variable (processor) in
/-- What a step can do. -/
inductive Moved (before : Link caller) :
    LinkAction caller.Request processor.Work → Link caller → Prop where
  | call (request client) (stepped : caller.client.step before.client (.call before.connected) = some client) :
      Moved before (.call request) { before with client, requests := before.requests ++ [request] }
  | own (action clientAction client) (kind : action.own? = some clientAction)
      (stepped : caller.client.step before.client clientAction = some client) :
      Moved before action { before with client }
  | runInLoop (index msg call) (found : before.client.calls[index]? = some call)
      (waits : call.stage = .waiting) (frame : before.frame index = some msg)
      (unposted : ¬before.Posted index) :
      Moved before (.runInLoop index) { before with
        posted := before.posted ++ [(index, msg)], functors := before.functors ++ [msg] }
  | send (msg rest) (queued : before.functors = msg :: rest) :
      Moved before .send { before with
        functors := rest, up := if before.connected then before.up.write msg else before.up }
  | receive (count pool) (accepted : before.accepted = true)
      (stepped : processor.system.step before.pool (.receive (before.up.read count).1) = some pool) :
      Moved before (.receive count) { before with pool, up := (before.up.read count).2 }
  | finish (index work pool)
      (stepped : processor.system.step before.pool (.finish index work) = some pool) :
      Moved before (.finish index work) { before with
        pool, down := before.answered (processor.reply before.pool index work) }
  | read (count) : Moved before (.read count) { before with
      decoded := before.decoded ++ (before.down.read count).1, down := (before.down.read count).2 }
  | resolve (msg rest client) (next : before.decoded = msg :: rest)
      (stepped : caller.client.step before.client (.resolvePending msg) = some client) :
      Moved before .resolve { before with client, decoded := rest }
  | disconnect : Moved before .disconnect { before with connected := false }
  | close : Moved before .close { before with accepted := false }

variable {before after : Link caller} {action : LinkAction caller.Request processor.Work}

theorem moved_of_step (stepped : (link processor caller).step before action = some after) :
    Moved processor before action after := by
  change linkStep processor caller before action = some after at stepped
  cases action with
  | call request =>
      simp only [linkStep, Link.proceed, Option.bind_eq_bind, Option.bind_eq_some_iff,
        Option.map_eq_some_iff] at stepped
      obtain ⟨_, ⟨client, moved, rfl⟩, same⟩ := stepped
      obtain rfl := Option.some.inj same
      exact .call request client moved
  | fetchId index =>
      obtain ⟨client, moved, rfl⟩ := Option.map_eq_some_iff.mp stepped
      exact .own _ _ client rfl moved
  | erase index =>
      obtain ⟨client, moved, rfl⟩ := Option.map_eq_some_iff.mp stepped
      exact .own _ _ client rfl moved
  | throws index | setPending index | timeout index | get index =>
      simp only [linkStep] at stepped
      split at stepped
      · obtain ⟨client, moved, rfl⟩ := Option.map_eq_some_iff.mp stepped
        exact .own _ _ client rfl moved
      · cases stepped
  | runInLoop index =>
      simp only [linkStep] at stepped
      split at stepped
      next msg stage frame =>
        obtain ⟨call, found, waits⟩ := Option.map_eq_some_iff.mp stage
        split at stepped
        · cases stepped
        next unposted =>
          obtain rfl := Option.some.inj stepped
          exact .runInLoop index msg call found waits frame unposted
      · cases stepped
  | send =>
      simp only [linkStep] at stepped
      split at stepped
      · cases stepped
      next msg rest queued =>
        obtain rfl := Option.some.inj stepped
        exact .send msg rest queued
  | receive count =>
      simp only [linkStep] at stepped
      split at stepped
      next accepted =>
        obtain ⟨pool, moved, rfl⟩ := Option.map_eq_some_iff.mp stepped
        exact .receive count pool accepted moved
      · cases stepped
  | finish index work =>
      obtain ⟨pool, moved, rfl⟩ := Option.map_eq_some_iff.mp stepped
      exact .finish index work pool moved
  | read count =>
      obtain rfl := Option.some.inj stepped
      exact .read count
  | resolve =>
      simp only [linkStep] at stepped
      split at stepped
      · cases stepped
      next msg rest next =>
        simp only [Link.proceed, Option.map_map, Option.map_eq_some_iff] at stepped
        obtain ⟨client, moved, rfl⟩ := stepped
        exact .resolve msg rest client next moved
  | disconnect =>
      obtain rfl := Option.some.inj stepped
      exact .disconnect
  | close =>
      obtain rfl := Option.some.inj stepped
      exact .close

abbrev LinkEvent (processor : Processor library) (caller : Caller library) :=
  Event (Link caller) (LinkAction caller.Request processor.Work)

def clientActions (event : LinkEvent processor caller) : List ClientAction :=
  match event.action with
  | .call _ => [.call event.before.connected]
  | .resolve => event.before.decoded.head?.toList.map .resolvePending
  | action => action.own?.toList

/-- The frames that `ResolvePending` was called for. -/
def resolved (event : LinkEvent processor caller) : List Message :=
  match event.action with
  | .resolve => event.before.decoded.head?.toList
  | _ => []

def performed (event : LinkEvent processor caller) : List (Message × processor.Work) :=
  match event.action with
  | .finish index work => event.before.pool.queued[index]?.toList.map (·, work)
  | _ => []

def replies (history : List (LinkEvent processor caller)) : List (Response library) :=
  (recorded performed history).filterMap fun task => (processor.process task.1 task.2).toOption

theorem replies_cons (event : LinkEvent processor caller) (history : List (LinkEvent processor caller)) :
    replies (event :: history) = replies history ++
      (performed event).filterMap fun task => (processor.process task.1 task.2).toOption := by
  rw [replies, recorded_cons, List.filterMap_append]
  rfl

section Client

theorem client_follows (stepped : (link processor caller).step before action = some after) :
    caller.client.system.execute before.client (clientActions ⟨before, action, after⟩) =
      some after.client := by
  have single : ∀ {own : ClientAction} {client : ClientState caller.Result},
      caller.client.step before.client own = some client →
      caller.client.system.execute before.client [own] = some client := by
    intro own client moved
    simp only [System.execute, SyncClient.system, moved, Option.bind_some]
  cases moved_of_step stepped with
  | call request client moved => exact single moved
  | own _ own client kind moved =>
      cases action <;> cases kind <;> exact single moved
  | resolve msg rest client next moved =>
      rw [clientActions, next]
      exact single moved
  | runInLoop | send | receive | finish | read | disconnect | close => rfl

theorem client_run {history : List (LinkEvent processor caller)} {state : Link caller}
    (run : Run (link processor caller) history state) :
    ∃ clientHistory, Run caller.client.system clientHistory state.client ∧
      ∀ msg, SyncClient.Received clientHistory msg → msg ∈ recorded resolved history := by
  have follows : ∀ before action after, (link processor caller).step before action = some after →
      caller.client.system.execute before.client (clientActions ⟨before, action, after⟩) =
        some after.client := fun _ _ _ => client_follows
  obtain ⟨clientHistory, clientRun, actions⟩ :=
    @Run.component _ _ _ _ _ caller.client.system Link.client clientActions rfl follows _ _ run
  refine ⟨clientHistory, clientRun, fun msg received => ?_⟩
  obtain ⟨event, membership, action⟩ := received
  have acted := actions event membership
  simp only [action, recorded, List.mem_flatMap, List.mem_reverse] at acted ⊢
  obtain ⟨step, inHistory, acted⟩ := acted
  refine ⟨step, inHistory, ?_⟩
  revert acted
  obtain ⟨before, action, after⟩ := step
  cases action <;> simp [clientActions, resolved, LinkAction.own?]

theorem tracked_of_run {Response : Type} {client : SyncClient Response}
    {history : List (Event (ClientState Response) ClientAction)} {state : ClientState Response}
    (run : Run client.system history state) (few : state.calls.length < 2 ^ 32) :
    ClientState.Tracked state :=
  run.invariant (fun state => state.calls.length < 2 ^ 32 → ClientState.Tracked state)
    (fun _ => client.tracked_initial) (by
      intro before action after known stepped few
      have moved := client.step_stepped stepped
      have fewBefore := Nat.lt_of_le_of_lt (SyncClient.length_step moved) few
      exact SyncClient.tracked_step (known fewBefore) fewBefore moved) few

end Client

end FileServer.Rpc
