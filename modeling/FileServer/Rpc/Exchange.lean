import FileServer.Rpc.Transport

/-!
# What has been exchanged

What each part of a link holds comes from the part before it: frames from calls,
tasks from frames, responses from tasks and resolved frames from responses.
-/

namespace FileServer.Rpc

open FileServer.Json FileServer.Protocol FileServer.Transition
open scoped List

variable {library : Library} {processor : Processor library} {caller : Caller library}

section Frames

variable {link after : Link caller} {index : Nat} {msg : Message}

theorem frame_eq_some : link.frame index = some msg ↔ ∃ call id request body,
    link.client.calls[index]? = some call ∧ call.requestId = some id ∧
      link.requests[index]? = some request ∧ caller.serialize request = .ok body ∧
      caller.message id request body = msg := by
  have serialized : ∀ request body, (caller.serialize request).toOption = some body ↔
      caller.serialize request = .ok body := by
    intro request body
    cases caller.serialize request <;> simp [Except.toOption]
  simp only [Link.frame, Option.bind_eq_bind, Option.bind_eq_some_iff, serialized,
    Option.pure_def, Option.some.injEq]
  constructor
  · rintro ⟨call, found, id, numbered, request, asked, body, written, made⟩
    exact ⟨call, id, request, body, found, numbered, asked, written, made⟩
  · rintro ⟨call, id, request, body, found, numbered, asked, written, made⟩
    exact ⟨call, found, id, numbered, request, asked, body, written, made⟩

theorem requestId_of_frame (framed : link.frame index = some msg) :
    ∃ call, link.client.calls[index]? = some call ∧ call.requestId = some msg.header.requestId := by
  obtain ⟨call, id, request, body, found, numbered, _, _, rfl⟩ := frame_eq_some.mp framed
  exact ⟨call, found, numbered⟩

theorem frame_kept (framed : link.frame index = some msg)
    (calls : ∀ call id, link.client.calls[index]? = some call → call.requestId = some id →
      ∃ later, after.client.calls[index]? = some later ∧ later.requestId = some id)
    (requests : link.requests <+: after.requests) : after.frame index = some msg := by
  obtain ⟨call, id, request, body, found, numbered, asked, written, made⟩ := frame_eq_some.mp framed
  obtain ⟨later, found', numbered'⟩ := calls call id found numbered
  obtain ⟨newer, grown⟩ := requests
  refine frame_eq_some.mpr ⟨later, id, request, body, found', numbered', ?_, written, made⟩
  rw [← grown, List.getElem?_append_left (List.getElem?_eq_some_iff.mp asked).1, asked]

end Frames

section Calls

open SyncClient ClientState

def Stage.registered {Response : Type} : Stage Response → Bool
  | .waiting | .timedOut | .returned _ => true
  | .entered | .numbered | .thrown => false

variable {Response : Type} {client : SyncClient Response} {before after : ClientState Response}
  {action : ClientAction}

theorem call_kept (tracked : Tracked before) (stepped : client.Stepped before action after)
    {index : Nat} {call : SyncCall Response} {id : UInt32}
    (found : before.calls[index]? = some call) (numbered : call.requestId = some id) :
    ∃ later, after.calls[index]? = some later ∧ later.requestId = some id ∧
      (call.stage.registered = true → later.stage.registered = true) := by
  have changed : ∀ {other : Nat} {old new : SyncCall Response}, before.calls[other]? = some old →
      new.requestId = old.requestId →
      (old.stage.registered = true → new.stage.registered = true) →
      ∃ later, (before.calls.set other new)[index]? = some later ∧ later.requestId = some id ∧
        (call.stage.registered = true → later.stage.registered = true) := by
    intro other old new found' same stays
    rw [getElem?_set_cases found']
    split
    next here =>
      subst here
      obtain rfl := Option.some.inj (found'.symm.trans found)
      exact ⟨new, rfl, same.trans numbered, stays⟩
    · exact ⟨call, found, numbered, fun still => still⟩
  cases stepped with
  | skip => exact ⟨call, found, numbered, fun still => still⟩
  | call connected =>
      refine ⟨call, ?_, numbered, fun still => still⟩
      rw [List.getElem?_append_left (List.getElem?_eq_some_iff.mp found).1, found]
  | fetchId other id' promise found' =>
      have unnumbered := tracked.unnumbered _ (List.mem_of_getElem? found') rfl
      simp only [ClientState.setCall, getElem?_set_cases found']
      split
      next here =>
        subst here
        obtain rfl := Option.some.inj (found'.symm.trans found)
        rw [numbered] at unnumbered
        cases unnumbered
      · exact ⟨call, found, numbered, fun still => still⟩
  | throws other id' promise found' => exact changed found' rfl fun still => by cases still
  | setPending other id' promise found' => exact changed found' rfl fun _ => rfl
  | timeout other id' found' => exact changed found' rfl fun _ => rfl
  | erase other id' promise found' => exact changed found' rfl fun _ => rfl
  | get other id' response found' => exact changed found' rfl fun _ => rfl
  | resolve msg response read =>
      cases registered : before.pending msg.header.requestId with
      | none =>
          rw [ClientState.resolve, registered]
          exact ⟨call, found, numbered, fun still => still⟩
      | some other =>
          obtain ⟨old, found', _, _, resolved⟩ := tracked.resolve_eq registered response
          rw [resolved]
          exact changed found' rfl fun still => still

end Calls

section Pools

variable {pool after : Pool library}

theorem pool_receive {msgs : List Message}
    (stepped : processor.system.step pool (.receive msgs) = some after) :
    pool.escaped = none ∧ after.received = pool.received ++ msgs ∧
      ∃ submitted, submitted <+ msgs ∧ after.queued = pool.queued ++ submitted ∧
        (after.escaped = none → submitted = msgs) := by
  have part : ∀ msgs, (processor.submit msgs).1 <+ msgs := by
    intro msgs
    induction msgs with
    | nil => exact .slnil
    | cons msg rest inductionHypothesis =>
        rw [Processor.submit]
        split
        · exact List.nil_sublist _
        · exact inductionHypothesis.cons_cons msg
  simp only [Processor.system] at stepped
  split at stepped
  · cases stepped
  next contained =>
    obtain rfl := Option.some.inj stepped
    refine ⟨by simpa using contained, rfl, _, part msgs, rfl, fun ended => ?_⟩
    rw [submit_all (submit_escapes ended)]

theorem pool_finish {index : Nat} {work : processor.Work}
    (stepped : processor.system.step pool (.finish index work) = some after) :
    pool.escaped = none ∧ after.escaped = none ∧ after.received = pool.received ∧
      ∃ msg, pool.queued[index]? = some msg ∧ after.queued = pool.queued.eraseIdx index := by
  simp only [Processor.system] at stepped
  split at stepped
  · cases stepped
  next contained =>
    have contained : pool.escaped = none := by simpa using contained
    split at stepped
    · cases stepped
    next msg found =>
      obtain rfl := Option.some.inj stepped
      exact ⟨contained, contained, rfl, msg, found, rfl⟩

end Pools

/-- What a run has brought to each part of the link. -/
structure Conveyed (history : List (LinkEvent processor caller)) (link : Link caller) : Prop where
  requests : link.requests.length = link.client.calls.length
  posts : (link.posted.map Prod.fst).Nodup
  frames : ∀ entry ∈ link.posted, link.frame entry.1 = some entry.2
  sent : ∃ sent, link.up.Carries sent link.pool.received ∧
    (sent ++ link.functors) <+ link.posted.map Prod.snd ∧
    (link.connected = true → sent ++ link.functors = link.posted.map Prod.snd)
  tasks : ((recorded performed history).map Prod.fst ++ link.pool.queued) <+~ link.pool.received
  /-- Without an exception that left the callback no frame is lost. -/
  contained : link.pool.escaped = none →
    ((recorded performed history).map Prod.fst ++ link.pool.queued) ~ link.pool.received
  responses : ∃ written,
    link.down.Carries (written.map Response.message) (recorded resolved history ++ link.decoded) ∧
      written <+ replies history ∧ (link.accepted = true → written = replies history)

theorem conveyed_start :
    Conveyed ([] : List (LinkEvent processor caller)) (link processor caller).initial where
  requests := rfl
  posts := .nil
  frames _ membership := absurd membership List.not_mem_nil
  sent := ⟨[], Pipe.carries_start, .refl _, fun _ => rfl⟩
  tasks := .refl _
  contained _ := .refl _
  responses := ⟨[], Pipe.carries_start, .refl _, fun _ => rfl⟩

section Steps

variable {history : List (LinkEvent processor caller)} {before after : Link caller}
  {action : LinkAction caller.Request processor.Work}

theorem Conveyed.client (conveyed : Conveyed history before)
    (tracked : ClientState.Tracked before.client) {clientAction : ClientAction}
    {client : ClientState caller.Result}
    (stepped : caller.client.step before.client clientAction = some client)
    (requests : List caller.Request) (grown : before.requests <+: requests)
    (size : requests.length = client.calls.length) :
    Conveyed history { before with client, requests } :=
  { conveyed with
    requests := size
    frames := fun entry posted => frame_kept (conveyed.frames entry posted)
      (fun call id found numbered => by
        obtain ⟨later, found', numbered', _⟩ :=
          call_kept tracked (caller.client.step_stepped stepped) found numbered
        exact ⟨later, found', numbered'⟩) grown }

theorem Conveyed.quiet (conveyed : Conveyed history before) {event : LinkEvent processor caller}
    (performs : performed event = []) (resolves : resolved event = []) :
    Conveyed (event :: history) before := by
  obtain ⟨requests, posts, frames, sent, tasks, contained, responses⟩ := conveyed
  refine ⟨requests, posts, frames, sent, ?_, ?_, ?_⟩
  · rwa [recorded_cons, performs, List.append_nil]
  · rwa [recorded_cons, performs, List.append_nil]
  · rwa [recorded_cons, resolves, List.append_nil, replies_cons, performs, List.filterMap_nil,
      List.append_nil]

theorem Conveyed.runInLoop (conveyed : Conveyed history before) {index : Nat} {msg : Message}
    (framed : before.frame index = some msg) (unposted : ¬before.Posted index) :
    Conveyed history { before with
      posted := before.posted ++ [(index, msg)], functors := before.functors ++ [msg] } := by
  obtain ⟨sent, carries, order, all⟩ := conveyed.sent
  refine { conveyed with posts := ?_, frames := ?_, sent := ⟨sent, carries, ?_, ?_⟩ }
  · rw [List.map_append, List.map_singleton]
    exact (List.perm_append_singleton _ _).nodup_iff.mpr
      (List.nodup_cons.mpr ⟨unposted, conveyed.posts⟩)
  · intro entry posted
    rcases List.mem_append.mp posted with older | newer
    · exact conveyed.frames entry older
    · obtain rfl := List.mem_singleton.mp newer
      exact framed
  · rw [List.map_append, ← List.append_assoc]
    exact order.append (.refl _)
  · intro connected
    rw [List.map_append, ← List.append_assoc, all connected]
    rfl

theorem Conveyed.send (conveyed : Conveyed history before) {msg : Message} {rest : List Message}
    (queued : before.functors = msg :: rest) :
    Conveyed history { before with
      functors := rest, up := if before.connected then before.up.write msg else before.up } := by
  obtain ⟨sent, carries, order, all⟩ := conveyed.sent
  rw [queued] at order all
  refine { conveyed with sent := ?_ }
  cases connected : before.connected with
  | true =>
      refine ⟨sent ++ [msg], carries.write msg, ?_, fun _ => ?_⟩
      · rwa [List.append_assoc]
      · rw [List.append_assoc]
        exact all connected
  | false =>
      refine ⟨sent, carries, ?_, fun still => ?_⟩
      · exact ((List.sublist_cons_self msg rest).append_left sent).trans order
      · cases still

theorem Conveyed.receive (conveyed : Conveyed history before) {count : Nat} {pool : Pool library}
    (stepped : processor.system.step before.pool (.receive (before.up.read count).1) = some pool) :
    Conveyed history { before with pool, up := (before.up.read count).2 } := by
  obtain ⟨sent, carries, order, all⟩ := conveyed.sent
  obtain ⟨contained, received, submitted, part, queued, whole⟩ := pool_receive stepped
  refine { conveyed with sent := ⟨sent, ?_, order, all⟩, tasks := ?_, contained := ?_ }
  · rw [received]
    exact carries.read count
  · rw [received, queued, ← List.append_assoc]
    exact conveyed.tasks.append part.subperm
  · intro ended
    rw [received, queued, whole ended, ← List.append_assoc]
    exact (conveyed.contained contained).append_right _

theorem Conveyed.finish (conveyed : Conveyed history before) {index : Nat} {work : processor.Work}
    {pool : Pool library}
    (stepped : processor.system.step before.pool (.finish index work) = some pool) :
    Conveyed (⟨before, .finish index work, after⟩ :: history) { before with
      pool, down := before.answered (processor.reply before.pool index work) } := by
  obtain ⟨contained, ended, received, msg, found, queued⟩ := pool_finish stepped
  have performs : performed (⟨before, .finish index work, after⟩ : LinkEvent processor caller) =
      [(msg, work)] := by
    simp [performed, found]
  have moved : (recorded performed history).map Prod.fst ++ before.pool.queued ~
      (recorded performed history ++ [(msg, work)]).map Prod.fst ++ pool.queued := by
    rw [List.map_append, List.append_assoc, queued]
    exact (perm_eraseIdx found).append_left _
  refine { conveyed with sent := ?_, tasks := ?_, contained := ?_, responses := ?_ }
  · rw [received]
    exact conveyed.sent
  · rw [recorded_cons, performs, received]
    exact moved.symm.subperm.trans conveyed.tasks
  · intro _
    rw [recorded_cons, performs, received]
    exact moved.symm.trans (conveyed.contained contained)
  · obtain ⟨written, carries, part, all⟩ := conveyed.responses
    have newer : replies (⟨before, .finish index work, after⟩ :: history) =
        replies history ++ (processor.process msg work).toOption.toList := by
      rw [replies_cons, performs]
      rfl
    have replied : processor.reply before.pool index work = (processor.process msg work).toOption := by
      rw [Processor.reply, found]
      rfl
    rw [newer, replied, recorded_cons]
    cases (processor.process msg work).toOption with
    | none =>
        simp only [Link.answered, Option.toList_none, List.append_nil]
        exact ⟨written, by simpa [resolved] using carries, part, all⟩
    | some response =>
        cases accepted : before.accepted with
        | true =>
            simp only [Link.answered, accepted, if_true]
            refine ⟨written ++ [response], ?_, part.append (.refl _), fun _ => by rw [all accepted]; rfl⟩
            rw [List.map_append, List.map_singleton]
            simpa [resolved] using carries.write response.message
        | false =>
            simp only [Link.answered, accepted, Bool.false_eq_true, if_false]
            exact ⟨written, by simpa [resolved] using carries,
              part.trans (List.sublist_append_left _ _), fun still => by cases still⟩

theorem Conveyed.read (conveyed : Conveyed history before) (count : Nat) :
    Conveyed history { before with
      decoded := before.decoded ++ (before.down.read count).1
      down := (before.down.read count).2 } := by
  obtain ⟨written, carries, part, all⟩ := conveyed.responses
  refine { conveyed with responses := ⟨written, ?_, part, all⟩ }
  rw [← List.append_assoc]
  exact carries.read count

theorem Conveyed.resolve (conveyed : Conveyed history before) {msg : Message} {rest : List Message}
    (next : before.decoded = msg :: rest) :
    Conveyed (⟨before, .resolve, after⟩ :: history) { before with decoded := rest } := by
  obtain ⟨written, carries, part, all⟩ := conveyed.responses
  have performs : performed (⟨before, .resolve, after⟩ : LinkEvent processor caller) = [] := rfl
  have resolves : resolved (⟨before, .resolve, after⟩ : LinkEvent processor caller) = [msg] := by
    simp [resolved, next]
  refine { conveyed with tasks := ?_, contained := ?_, responses := ⟨written, ?_, ?_, ?_⟩ }
  · rw [recorded_cons, performs, List.append_nil]
    exact conveyed.tasks
  · rw [recorded_cons, performs, List.append_nil]
    exact conveyed.contained
  · rw [recorded_cons, resolves, List.append_assoc]
    rw [next] at carries
    exact carries
  · rw [replies_cons, performs, List.filterMap_nil, List.append_nil]
    exact part
  · rw [replies_cons, performs, List.filterMap_nil, List.append_nil]
    exact all

theorem length_call {Response : Type} {client : SyncClient Response}
    {state after : ClientState Response} {connected : Bool}
    (stepped : client.step state (.call connected) = some after) :
    after.calls.length = state.calls.length + 1 := by
  obtain rfl := Option.some.inj stepped
  exact List.length_append

theorem length_own {Response : Type} {client : SyncClient Response}
    {state after : ClientState Response} {action : ClientAction}
    (stepped : client.Stepped state action after) (other : ∀ connected, action ≠ .call connected) :
    after.calls.length = state.calls.length := by
  cases stepped with
  | call connected => exact absurd rfl (other connected)
  | skip => rfl
  | fetchId | throws | setPending | timeout | erase | get => simp [ClientState.setCall, ClientState.erasePending]
  | resolve msg response read =>
      rw [ClientState.resolve]
      split
      · rw [ClientState.erasePending, ClientState.setValue]
        split
        · split <;> simp
        · rfl
      · rfl

theorem conveyed_step (conveyed : Conveyed history before)
    (tracked : ClientState.Tracked before.client)
    (stepped : (link processor caller).step before action = some after) :
    Conveyed (⟨before, action, after⟩ :: history) after := by
  cases moved_of_step stepped with
  | call request client moved =>
      refine (conveyed.client tracked moved _ (List.prefix_append _ _) ?_).quiet rfl rfl
      rw [length_call moved, List.length_append, conveyed.requests]
      rfl
  | own _ own client kind moved =>
      have same := length_own (caller.client.step_stepped moved) (by
        rintro connected rfl
        cases action <;> cases kind)
      have kept := conveyed.client tracked moved _ (List.prefix_refl _) (conveyed.requests.trans same.symm)
      cases action <;> cases kind <;> exact kept.quiet rfl rfl
  | runInLoop index msg call found waits framed unposted =>
      exact (conveyed.runInLoop framed unposted).quiet rfl rfl
  | send msg rest queued => exact (conveyed.send queued).quiet rfl rfl
  | receive count pool accepted moved => exact (conveyed.receive moved).quiet rfl rfl
  | finish index work pool moved => exact conveyed.finish moved
  | read count => exact (conveyed.read count).quiet rfl rfl
  | resolve msg rest client next moved =>
      have same := length_own (caller.client.step_stepped moved) (by
        rintro connected other
        cases other)
      exact (conveyed.resolve next).client tracked moved _ (List.prefix_refl _)
        (conveyed.requests.trans same.symm)
  | disconnect =>
      obtain ⟨sent, carries, order, _⟩ := conveyed.sent
      have gone : Conveyed history { before with connected := false } :=
        { conveyed with sent := ⟨sent, carries, order, fun still => by cases still⟩ }
      exact gone.quiet rfl rfl
  | close =>
      obtain ⟨written, carries, part, _⟩ := conveyed.responses
      have gone : Conveyed history { before with accepted := false } :=
        { conveyed with responses := ⟨written, carries, part, fun still => by cases still⟩ }
      exact gone.quiet rfl rfl

theorem calls_grow (stepped : (link processor caller).step before action = some after) :
    before.client.calls.length ≤ after.client.calls.length := by
  cases moved_of_step stepped with
  | call request client moved | own _ own client kind moved | resolve msg rest client next moved =>
      exact SyncClient.length_step (caller.client.step_stepped moved)
  | runInLoop | send | receive | finish | read | disconnect | close => exact Nat.le_refl _

end Steps

theorem conveyed_of_run {history : List (LinkEvent processor caller)} {state : Link caller}
    (run : Run (link processor caller) history state) (few : state.client.calls.length < 2 ^ 32) :
    Conveyed history state := by
  induction run with
  | start => exact conveyed_start
  | next run stepped inductionHypothesis =>
      have fewBefore := Nat.lt_of_le_of_lt (calls_grow stepped) few
      obtain ⟨_, clientRun, _⟩ := client_run run
      exact conveyed_step (inductionHypothesis fewBefore) (tracked_of_run clientRun fewBefore) stepped

end FileServer.Rpc
