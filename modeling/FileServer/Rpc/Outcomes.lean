import FileServer.Rpc.Exchange
import Mathlib.Data.List.Nodup

/-!
# The outcomes of remote calls

A call that returns has failed at the client or has what a task responded to its
own frame, and no frame is performed twice.
-/

namespace FileServer.Rpc

open FileServer.Json FileServer.Protocol FileServer.Transition
open scoped List

variable {library : Library} {processor : Processor library} {caller : Caller library}
  {history : List (LinkEvent processor caller)} {link : Link caller}

/-- The frames that were written fit the header. -/
structure Short (history : List (LinkEvent processor caller)) (link : Link caller) : Prop where
  frames : ∀ entry ∈ link.posted, entry.2.Sendable
  responses : ∀ response ∈ replies history, response.message.Sendable

/-- How a call ends that is not left by an exception. -/
inductive Outcome (history : List (LinkEvent processor caller)) (link : Link caller) (index : Nat)
    (call : SyncCall caller.Result) : caller.Result → Prop where
  | notConnected (unnumbered : call.requestId = none) :
      Outcome history link index call caller.client.notConnected
  | timeout : Outcome history link index call caller.client.timeout
  | served {msg work response result} (framed : link.frame index = some msg)
      (performed : (Encoder.sent msg, work) ∈ recorded performed history)
      (responds : processor.process (Encoder.sent msg) work = .ok response)
      (reads : caller.client.response (Encoder.sent response.message) = some result) :
      Outcome history link index call result

structure Exchanged (history : List (LinkEvent processor caller)) (link : Link caller) : Prop where
  outcomes : ∀ index call result, link.client.calls[index]? = some call →
    call.stage = .returned result → Outcome history link index call result
  /-- A task performs the frame of a call. -/
  asked : ∀ task ∈ recorded performed history, ∃ index msg, link.frame index = some msg ∧
    task.1 = Encoder.sent msg
  once : ((recorded performed history).map fun task => task.1.header.requestId).Nodup

theorem index_eq {Response : Type} {state : ClientState Response} (tracked : ClientState.Tracked state)
    {first second : Nat} {call call' : SyncCall Response} {id : UInt32}
    (found : state.calls[first]? = some call) (numbered : call.requestId = some id)
    (found' : state.calls[second]? = some call') (numbered' : call'.requestId = some id) :
    first = second := by
  refine tracked.numbered.distinct first second id ?_ ?_
  · rw [List.getElem?_map, found, Option.map_some, numbered]
  · rw [List.getElem?_map, found', Option.map_some, numbered']

section Distinct

variable (tracked : ClientState.Tracked link.client)
include tracked

/-- Frames of different calls have different ids. -/
theorem frame_distinct {first second : Nat} {msg other : Message}
    (framed : link.frame first = some msg) (framed' : link.frame second = some other)
    (same : msg.header.requestId = other.header.requestId) : first = second := by
  obtain ⟨call, found, numbered⟩ := requestId_of_frame framed
  obtain ⟨call', found', numbered'⟩ := requestId_of_frame framed'
  exact index_eq tracked found numbered found' (same ▸ numbered')

theorem Conveyed.distinct (conveyed : Conveyed history link) :
    (link.posted.map fun entry => entry.2.header.requestId).Nodup := by
  refine List.Nodup.map_on ?_ (List.Nodup.of_map Prod.fst conveyed.posts)
  intro entry membership other membership' same
  have framed := conveyed.frames entry membership
  have framed' := conveyed.frames other membership'
  have here := frame_distinct tracked framed framed' same
  rw [← here, framed] at framed'
  exact Prod.ext here (Option.some.inj framed')

end Distinct

section Provenance

variable (conveyed : Conveyed history link) (short : Short history link)
include conveyed short

theorem Conveyed.performs :
    (recorded performed history).map Prod.fst <+~ link.posted.map fun entry => Encoder.sent entry.2 := by
  obtain ⟨sent, carries, order, _⟩ := conveyed.sent
  have written : sent <+ link.posted.map Prod.snd := (List.sublist_append_left _ _).trans order
  have arrived := carries.front fun msg membership => by
    obtain ⟨entry, posted, rfl⟩ := List.mem_map.mp (written.subset membership)
    exact short.frames entry posted
  have received := arrived.sublist.trans (written.map Encoder.sent)
  rw [List.map_map] at received
  exact (List.sublist_append_left _ _).subperm.trans (conveyed.tasks.trans received.subperm)

/-- A frame of a task is the frame of a call. -/
theorem Conveyed.asked {task : Message × processor.Work}
    (membership : task ∈ recorded performed history) :
    ∃ entry ∈ link.posted, task.1 = Encoder.sent entry.2 := by
  obtain ⟨entry, posted, same⟩ :=
    List.mem_map.mp ((conveyed.performs short).subset (List.mem_map_of_mem membership))
  exact ⟨entry, posted, same.symm⟩

theorem Conveyed.answers {msg : Message} (arrived : msg ∈ recorded resolved history) :
    ∃ task ∈ recorded performed history, ∃ response, processor.process task.1 task.2 = .ok response ∧
      msg = Encoder.sent response.message := by
  obtain ⟨written, carries, part, _⟩ := conveyed.responses
  have front := carries.front fun msg membership => by
    obtain ⟨response, sent, rfl⟩ := List.mem_map.mp membership
    exact short.responses response (part.subset sent)
  obtain ⟨_, written, rfl⟩ := List.mem_map.mp (front.subset (List.mem_append_left _ arrived))
  obtain ⟨response, sent, rfl⟩ := List.mem_map.mp written
  obtain ⟨task, membership, responds⟩ := List.mem_filterMap.mp (part.subset sent)
  refine ⟨task, membership, response, ?_, rfl⟩
  cases processed : processor.process task.1 task.2 with
  | ok value =>
      rw [processed] at responds
      rw [Option.some.inj responds]
  | error exception =>
      rw [processed] at responds
      cases responds

theorem Conveyed.answered (tracked : ClientState.Tracked link.client) {msg : Message}
    (arrived : msg ∈ recorded resolved history) {index : Nat} {call : SyncCall caller.Result}
    (found : link.client.calls[index]? = some call)
    (numbered : call.requestId = some msg.header.requestId) :
    ∃ frame work response, (index, frame) ∈ link.posted ∧
      (Encoder.sent frame, work) ∈ recorded performed history ∧
      processor.process (Encoder.sent frame) work = .ok response ∧
      msg = Encoder.sent response.message := by
  obtain ⟨⟨asked, work⟩, performs, response, responds, rfl⟩ := conveyed.answers short arrived
  obtain ⟨⟨other, frame⟩, posted, same⟩ := conveyed.asked short performs
  obtain rfl : asked = Encoder.sent frame := same
  obtain ⟨call', found', numbered'⟩ := requestId_of_frame (conveyed.frames _ posted)
  have replied : response.requestId = frame.header.requestId :=
    processor.replies (Encoder.sent frame) work response responds
  have here : call.requestId = some frame.header.requestId := by
    rw [numbered, ← replied]
    rfl
  obtain rfl := index_eq tracked found' numbered' found here
  exact ⟨frame, work, response, posted, performs, responds, rfl⟩

end Provenance

/-- Calls return what was responded to them, and their frames are performed at most
once. -/
theorem exchanged_of_run (run : Run (Rpc.link processor caller) history link)
    (few : link.client.calls.length < 2 ^ 32) (short : Short history link) :
    Exchanged history link := by
  have conveyed := conveyed_of_run run few
  obtain ⟨clientHistory, clientRun, resolves⟩ := client_run run
  have tracked := tracked_of_run clientRun few
  refine ⟨?_, ?_, ?_⟩
  · intro index call result found returned
    have answers := (SyncClient.run_faithful clientRun few).answered call (List.mem_of_getElem? found)
      result returned
    cases answers with
    | notConnected unnumbered => exact .notConnected unnumbered
    | timeout => exact .timeout
    | response received numbered reads =>
        obtain ⟨frame, work, response, posted, performs, responds, rfl⟩ :=
          conveyed.answered short tracked (resolves _ received) found numbered
        exact .served (conveyed.frames _ posted) performs responds reads
  · intro task membership
    obtain ⟨⟨index, msg⟩, posted, same⟩ := conveyed.asked short membership
    exact ⟨index, msg, conveyed.frames _ posted, same⟩
  · obtain ⟨tasks, order, part⟩ := conveyed.performs short
    have distinct := (part.map fun msg : Message => msg.header.requestId).nodup (by
      rw [List.map_map]
      exact conveyed.distinct tracked)
    have ids := (order.map fun msg : Message => msg.header.requestId).nodup_iff.mp distinct
    rwa [List.map_map] at ids

end FileServer.Rpc
