import FileServer.Rpc.Outcomes

/-!
# When everything has arrived

Over a connection that lasts no frame, task or response is lost: once everything
on the way has arrived, every call has what was responded to it or gave up before.
-/

namespace FileServer.Rpc

open FileServer.Json FileServer.Protocol FileServer.Transition
open scoped List

section Promises

open SyncClient ClientState

variable {Response : Type} {client : SyncClient Response}
  {history : List (Event (ClientState Response) ClientAction)} {state after : ClientState Response}
  {action : ClientAction}

/-- What the promise of a numbered call tells of it. -/
structure Heeded (client : SyncClient Response)
    (history : List (Event (ClientState Response) ClientAction)) (state : ClientState Response) :
    Prop where
  waiting : ∀ index call id, state.calls[index]? = some call → call.requestId = some id →
    call.promise = none → call.stage = .waiting ∨ call.stage = .timedOut →
    state.pending id = some index
  ended : ∀ call ∈ state.calls, call.requestId ≠ none → call.promise = none →
    ∀ result, call.stage = .returned result → result = client.timeout
  promised : ∀ call ∈ state.calls, ∀ result, call.promise = some result →
    ∃ msg, Received history msg ∧ call.requestId = some msg.header.requestId ∧
      client.response msg = some result

theorem Heeded.later (heeded : Heeded client history state)
    (event : Event (ClientState Response) ClientAction) : Heeded client (event :: history) state := by
  refine { heeded with promised := fun call membership result promised => ?_ }
  obtain ⟨msg, ⟨earlier, inHistory, arrived⟩, known⟩ := heeded.promised call membership result promised
  exact ⟨msg, ⟨earlier, List.mem_cons_of_mem _ inHistory, arrived⟩, known⟩

theorem Heeded.setCall (heeded : Heeded client history state) {index : Nat}
    {call : SyncCall Response} (found : state.calls[index]? = some call)
    (changed : SyncCall Response) (pending : UInt32 → Option Nat) (nextId : UInt32)
    (others : ∀ other waiting id, other ≠ index → state.calls[other]? = some waiting →
      waiting.requestId = some id → state.pending id = some other → pending id = some other)
    (waiting : ∀ id, changed.requestId = some id → changed.promise = none →
      changed.stage = .waiting ∨ changed.stage = .timedOut → pending id = some index)
    (ended : changed.requestId ≠ none → changed.promise = none →
      ∀ result, changed.stage = .returned result → result = client.timeout)
    (promised : ∀ result, changed.promise = some result → ∃ msg, Received history msg ∧
      changed.requestId = some msg.header.requestId ∧ client.response msg = some result) :
    Heeded client history { state.setCall index changed with pending, nextId } := by
  refine ⟨?_, ?_, ?_⟩
  · intro other call' id found' numbered unset active
    simp only [ClientState.setCall, getElem?_set_cases found] at found'
    split at found'
    next here =>
      subst here
      obtain rfl := Option.some.inj found'
      exact waiting id numbered unset active
    next away =>
      exact others other call' id away found' numbered
        (heeded.waiting other call' id found' numbered unset active)
  · intro call' membership numbered unset result returned
    rcases List.mem_or_eq_of_mem_set membership with older | rfl
    · exact heeded.ended call' older numbered unset result returned
    · exact ended numbered unset result returned
  · intro call' membership result known
    rcases List.mem_or_eq_of_mem_set membership with older | rfl
    · exact heeded.promised call' older result known
    · exact promised result known

theorem requestId_ne (tracked : Tracked state) {index other : Nat} {call call' : SyncCall Response}
    {id id' : UInt32} (found : state.calls[index]? = some call) (numbered : call.requestId = some id)
    (away : other ≠ index) (found' : state.calls[other]? = some call')
    (numbered' : call'.requestId = some id') : id' ≠ id := by
  rintro rfl
  exact away (index_eq tracked found' numbered' found numbered)

theorem heeded_step (tracked : Tracked state) (heeded : Heeded client history state)
    (stepped : client.Stepped state action after) :
    Heeded client (⟨state, action, after⟩ :: history) after := by
  have earlier := heeded.later ⟨state, action, after⟩
  cases stepped with
  | skip => exact earlier
  | call connected =>
      refine ⟨?_, ?_, ?_⟩
      · intro index call id found numbered unset active
        rw [List.getElem?_append] at found
        split at found
        · exact earlier.waiting index call id found numbered unset active
        · obtain rfl := List.mem_singleton.mp (List.mem_of_getElem? found)
          cases numbered
      · intro call membership numbered unset result returned
        rcases List.mem_append.mp membership with older | newer
        · exact earlier.ended call older numbered unset result returned
        · obtain rfl := List.mem_singleton.mp newer
          exact absurd rfl numbered
      · intro call membership result promised
        rcases List.mem_append.mp membership with older | newer
        · exact earlier.promised call older result promised
        · obtain rfl := List.mem_singleton.mp newer
          cases promised
  | fetchId index id promise found =>
      have unset : promise = none := tracked.unset _ (List.mem_of_getElem? found) (.inl rfl)
      refine earlier.setCall found _ state.pending _ (fun _ _ _ _ _ _ kept => kept) (by simp)
        (by simp) ?_
      intro result promised
      simp [unset] at promised
  | throws index id promise found =>
      refine earlier.setCall found _ state.pending state.nextId (fun _ _ _ _ _ _ kept => kept)
        (by simp) (by simp) ?_
      intro result promised
      exact earlier.promised _ (List.mem_of_getElem? found) result promised
  | setPending index id promise found =>
      refine earlier.setCall found _ _ state.nextId ?_ ?_ (by simp) ?_
      · intro other call' id' away found' numbered' kept
        rw [if_neg (requestId_ne tracked found rfl away found' numbered'), kept]
      · intro id' numbered _ _
        rw [if_pos (Option.some.inj numbered).symm]
      · intro result promised
        exact earlier.promised _ (List.mem_of_getElem? found) result promised
  | timeout index id found =>
      refine earlier.setCall found _ state.pending state.nextId (fun _ _ _ _ _ _ kept => kept)
        ?_ (by simp) (by simp)
      intro id' numbered unset _
      exact earlier.waiting index _ id' found numbered unset (.inl rfl)
  | erase index id promise found =>
      refine earlier.setCall found _ _ state.nextId ?_ (by simp) ?_ ?_
      · intro other call' id' away found' numbered' kept
        simp only [erasePending]
        rw [if_neg (requestId_ne tracked found rfl away found' numbered'), kept]
      · intro _ _ result returned
        cases returned
        rfl
      · intro result promised
        exact earlier.promised _ (List.mem_of_getElem? found) result promised
  | get index id response found =>
      refine earlier.setCall found _ state.pending state.nextId (fun _ _ _ _ _ _ kept => kept)
        (by simp) (by simp) ?_
      intro result promised
      exact earlier.promised _ (List.mem_of_getElem? found) result promised
  | resolve msg response read =>
      cases registered : state.pending msg.header.requestId with
      | none => simpa [ClientState.resolve, registered] using earlier
      | some index =>
          obtain ⟨call, found, numbered, _, resolved⟩ := tracked.resolve_eq registered response
          rw [resolved] at earlier ⊢
          refine earlier.setCall found _ _ state.nextId ?_ (by simp) (by simp) ?_
          · intro other call' id' away found' numbered' kept
            rw [if_neg (requestId_ne tracked found numbered away found' numbered'), kept]
          · intro result promised
            cases promised
            exact ⟨msg, ⟨_, List.mem_cons_self, rfl⟩, numbered, read⟩

theorem heeded_of_run (run : Run client.system history state)
    (few : state.calls.length < 2 ^ 32) : Heeded client history state := by
  induction run with
  | start =>
      refine ⟨?_, ?_, ?_⟩ <;> simp [SyncClient.system]
  | next run stepped inductionHypothesis =>
      have moved := client.step_stepped stepped
      have fewBefore := Nat.lt_of_le_of_lt (SyncClient.length_step moved) few
      exact heeded_step (tracked_of_run run fewBefore) (inductionHypothesis fewBefore) moved

/-- Only a call that registers its promise adds to the map. -/
theorem pending_none (stepped : client.Stepped state action after) {id : UInt32}
    (free : state.pending id = none) : after.pending id = none ∨
      ∃ (index : Nat) (call : SyncCall Response), state.calls[index]? = some call ∧
        call.stage = .numbered ∧ call.requestId = some id := by
  cases stepped with
  | call | fetchId | throws | timeout | get | skip => exact .inl free
  | setPending index id' promise found =>
      by_cases same : id = id'
      · exact .inr ⟨index, _, found, rfl, congrArg some same.symm⟩
      · exact .inl ((if_neg same).trans free)
  | erase index id' promise found =>
      left
      simp only [ClientState.setCall, erasePending, free, ite_self]
  | resolve msg response read =>
      left
      rw [ClientState.resolve]
      split
      · simp only [erasePending]
        split
        · rfl
        · rw [setValue]
          split
          · split <;> exact free
          · exact free
      · exact free

theorem resolved_none {msg : Message} (readable : (client.response msg).isSome = true)
    (stepped : client.step state (.resolvePending msg) = some after) :
    after.pending msg.header.requestId = none := by
  obtain ⟨response, read⟩ := Option.isSome_iff_exists.mp readable
  simp only [SyncClient.step, read, Option.some.injEq] at stepped
  subst stepped
  rw [ClientState.resolve]
  split
  · simp [erasePending]
  next free => exact free

end Promises

section Links

variable {library : Library} {processor : Processor library} {caller : Caller library}
  {history : List (LinkEvent processor caller)} {before after link : Link caller}
  {action : LinkAction caller.Request processor.Work}

theorem Short.earlier (stepped : (Rpc.link processor caller).step before action = some after)
    (short : Short (⟨before, action, after⟩ :: history) after) : Short history before := by
  refine ⟨fun entry posted => short.frames entry ?_, fun response replied => short.responses response ?_⟩
  · cases moved_of_step stepped with
    | runInLoop => exact List.mem_append_left _ posted
    | call | own | send | receive | finish | read | resolve | disconnect | close => exact posted
  · rw [replies_cons]
    exact List.mem_append_left _ replied

/-- What the resolved frames of a link have come to. -/
structure Cleared (history : List (LinkEvent processor caller)) (link : Link caller) : Prop where
  registered : ∀ index, link.Posted index → ∀ call, link.client.calls[index]? = some call →
    call.stage.registered = true
  cleared : ∀ msg ∈ recorded resolved history, (caller.client.response msg).isSome = true →
    link.client.pending msg.header.requestId = none

theorem Cleared.quiet (cleared : Cleared history before) {event : LinkEvent processor caller}
    (resolves : resolved event = []) (posted : after.posted = before.posted)
    (client : after.client = before.client) : Cleared (event :: history) after := by
  refine ⟨?_, ?_⟩
  · rw [client]
    intro index listed
    rw [Link.Posted, posted] at listed
    exact cleared.registered index listed
  · rw [recorded_cons, resolves, List.append_nil, client]
    exact cleared.cleared

theorem Cleared.client (cleared : Cleared history before) (conveyed : Conveyed history before)
    (short : Short history before) (tracked : ClientState.Tracked before.client)
    {clientAction : ClientAction} {client : ClientState caller.Result}
    (stepped : caller.client.step before.client clientAction = some client)
    (requests : List caller.Request) :
    Cleared history { before with client, requests } := by
  have moved := caller.client.step_stepped stepped
  have framed : ∀ index, before.Posted index → ∃ msg, before.frame index = some msg := by
    intro index posted
    obtain ⟨entry, listed, rfl⟩ := List.mem_map.mp posted
    exact ⟨entry.2, conveyed.frames entry listed⟩
  refine ⟨?_, ?_⟩
  · intro index posted call found
    obtain ⟨msg, framed⟩ := framed index posted
    obtain ⟨old, found', numbered⟩ := requestId_of_frame framed
    obtain ⟨later, again, _, stays⟩ := call_kept tracked moved found' numbered
    obtain rfl := Option.some.inj (again.symm.trans found)
    exact stays (cleared.registered index posted old found')
  · intro msg arrived readable
    rcases pending_none moved (cleared.cleared msg arrived readable) with
      free | ⟨index, call, found, early, numbered⟩
    · exact free
    · obtain ⟨_, _, _, posted, _⟩ := conveyed.answered short tracked arrived found numbered
      have active := cleared.registered index (List.mem_map_of_mem posted) call found
      rw [early] at active
      cases active

theorem cleared_step (cleared : Cleared history before) (conveyed : Conveyed history before)
    (short : Short history before) (tracked : ClientState.Tracked before.client)
    (stepped : (Rpc.link processor caller).step before action = some after) :
    Cleared (⟨before, action, after⟩ :: history) after := by
  cases moved_of_step stepped with
  | call request client moved =>
      exact (cleared.client conveyed short tracked moved _).quiet rfl rfl rfl
  | own _ own client kind moved =>
      have kept := cleared.client conveyed short tracked moved before.requests
      cases action <;> cases kind <;> exact kept.quiet rfl rfl rfl
  | runInLoop index msg call found waits framed unposted =>
      have kept : Cleared history { before with
          posted := before.posted ++ [(index, msg)], functors := before.functors ++ [msg] } := by
        refine ⟨?_, cleared.cleared⟩
        intro other posted call' found'
        rw [Link.Posted, List.map_append, List.mem_append] at posted
        rcases posted with older | newer
        · exact cleared.registered other older call' found'
        · obtain rfl := List.mem_singleton.mp newer
          obtain rfl := Option.some.inj (found.symm.trans found')
          rw [waits]
          rfl
      exact kept.quiet rfl rfl rfl
  | send | receive | finish | read | disconnect | close =>
      exact cleared.quiet rfl rfl rfl
  | resolve msg rest client next moved =>
      have kept := cleared.client conveyed short tracked moved before.requests
      refine ⟨kept.registered, ?_⟩
      intro other arrived readable
      rw [recorded_cons, List.mem_append] at arrived
      rcases arrived with older | newer
      · exact kept.cleared other older readable
      · have same : other = msg := by simpa [resolved, next] using newer
        subst same
        exact resolved_none readable moved

theorem cleared_of_run (run : Run (Rpc.link processor caller) history link)
    (few : link.client.calls.length < 2 ^ 32) (short : Short history link) :
    Cleared history link := by
  induction run with
  | start =>
      refine ⟨fun index posted => absurd posted List.not_mem_nil, fun msg resolved => ?_⟩
      exact absurd resolved List.not_mem_nil
  | next run stepped inductionHypothesis =>
      have fewBefore := Nat.lt_of_le_of_lt (calls_grow stepped) few
      have shortBefore := short.earlier stepped
      obtain ⟨_, clientRun, _⟩ := client_run run
      exact cleared_step (inductionHypothesis fewBefore shortBefore) (conveyed_of_run run fewBefore)
        shortBefore (tracked_of_run clientRun fewBefore) stepped

/-- Nothing is on its way, and the connection has lasted. -/
structure Settled (link : Link caller) : Prop where
  connected : link.connected = true
  accepted : link.accepted = true
  contained : link.pool.escaped = none
  functors : link.functors = []
  frames : link.up.unread = []
  tasks : link.pool.queued = []
  responses : link.down.unread = []
  decoded : link.decoded = []

theorem responses_arrive (run : Run (Rpc.link processor caller) history link)
    (few : link.client.calls.length < 2 ^ 32) (short : Short history link)
    (settled : Settled link) {index : Nat} {msg : Message} (posted : (index, msg) ∈ link.posted) :
    ∃ call work, link.client.calls[index]? = some call ∧
      (Encoder.sent msg, work) ∈ recorded performed history ∧
      ∀ response result, processor.process (Encoder.sent msg) work = .ok response →
        caller.client.response (Encoder.sent response.message) = some result →
        call.promise = some result ∨ call.stage = .returned caller.client.timeout := by
  have conveyed := conveyed_of_run run few
  have exchanged := exchanged_of_run run few short
  have cleared := cleared_of_run run few short
  obtain ⟨clientHistory, clientRun, resolves⟩ := client_run run
  have heeded := heeded_of_run clientRun few
  obtain ⟨call, found, numbered⟩ := requestId_of_frame (conveyed.frames _ posted)
  obtain ⟨sent, carries, _, all⟩ := conveyed.sent
  have everything := all settled.connected
  rw [settled.functors, List.append_nil] at everything
  subst everything
  have received := carries.complete (fun msg membership => by
    obtain ⟨entry, posted, rfl⟩ := List.mem_map.mp membership
    exact short.frames entry posted) settled.frames
  have balanced := conveyed.contained settled.contained
  rw [settled.tasks, List.append_nil, received] at balanced
  have performs := balanced.symm.subset (List.mem_map_of_mem (List.mem_map_of_mem posted))
  obtain ⟨⟨frame, work⟩, performs, same⟩ := List.mem_map.mp performs
  obtain rfl : frame = Encoder.sent msg := same
  refine ⟨call, work, found, performs, fun response result responds reads => ?_⟩
  have replied : response ∈ replies history :=
    List.mem_filterMap.mpr ⟨_, performs, by simp only [responds, Except.toOption]⟩
  obtain ⟨written, carries', _, all'⟩ := conveyed.responses
  obtain rfl := all' settled.accepted
  have arrived := carries'.complete (fun msg membership => by
    obtain ⟨response, sent, rfl⟩ := List.mem_map.mp membership
    exact short.responses response sent) settled.responses
  rw [settled.decoded, List.append_nil] at arrived
  have resolves' : Encoder.sent response.message ∈ recorded resolved history := by
    rw [arrived]
    exact List.mem_map_of_mem (List.mem_map_of_mem replied)
  have sameId : response.requestId = msg.header.requestId :=
    processor.replies (Encoder.sent msg) work response responds
  cases promise : call.promise with
  | none =>
      have free := cleared.cleared _ resolves' (by rw [reads]; rfl)
      have unregistered : ∀ stage, stage = .waiting ∨ stage = .timedOut → call.stage ≠ stage := by
        rintro stage active rfl
        have registered := heeded.waiting index call _ found numbered promise active
        rw [← sameId] at registered
        cases free.symm.trans registered
      right
      have begun := cleared.registered index (List.mem_map_of_mem posted) call found
      cases stage : call.stage with
      | waiting => exact absurd stage (unregistered _ (.inl rfl))
      | timedOut => exact absurd stage (unregistered _ (.inr rfl))
      | returned last =>
          rw [heeded.ended call (List.mem_of_getElem? found) (by simp [numbered]) promise last stage]
      | entered | numbered | thrown =>
          rw [stage] at begun
          cases begun
  | some last =>
      obtain ⟨other, received, numbered', reads'⟩ :=
        heeded.promised call (List.mem_of_getElem? found) last promise
      obtain ⟨task, performs', response', responds', rfl⟩ :=
        conveyed.answers short (resolves _ received)
      have sameTask : task = (Encoder.sent msg, work) := by
        refine List.inj_on_of_nodup_map exchanged.once performs' performs ?_
        have replied' := processor.replies task.1 task.2 response' responds'
        exact replied'.symm.trans (Option.some.inj (numbered'.symm.trans numbered))
      subst sameTask
      obtain rfl := Except.ok.inj (responds.symm.trans responds')
      exact .inl (congrArg some (Option.some.inj (reads'.symm.trans reads)))

end Links

end FileServer.Rpc
