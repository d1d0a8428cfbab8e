import FileServer.Protocol.Decoder
import FileServer.Transition.Run

/-!
# Synchronous calls

A call registers a promise under its request id and waits for the response or
the timeout; the IO thread resolves the promises.  The steps are the sections
under the mutex and what a thread does between them.
-/

namespace FileServer.Rpc

open FileServer.Protocol FileServer.Transition

/-- What differs between the clients: their errors, and how they read a
response, where they can. -/
structure SyncClient (Response : Type) where
  notConnected : Response
  timeout : Response
  response : Message → Option Response

/-- Where the thread of a call is. -/
inductive Stage (Response : Type) where
  | entered
  | numbered
  | waiting
  | timedOut
  | returned (result : Response)
  /-- The request could not be serialised. -/
  | thrown
  deriving DecidableEq

/-- The call is over, and with it the life of its promise. -/
def Stage.ended {Response : Type} : Stage Response → Bool
  | .returned _ | .thrown => true
  | _ => false

structure SyncCall (Response : Type) where
  stage : Stage Response
  requestId : Option UInt32 := none
  promise : Option Response := none
  deriving DecidableEq

/-- The state of a client; `misused` tells that a promise was set twice or after
its call was over. -/
structure ClientState (Response : Type) where
  calls : List (SyncCall Response)
  nextId : UInt32
  pending : UInt32 → Option Nat
  misused : Bool

inductive ClientAction where
  /-- A call finds `connection_` set or not. -/
  | call (connected : Bool)
  | fetchId (call : Nat)
  | throws (call : Nat)
  | setPending (call : Nat)
  | resolvePending (msg : Message)
  /-- `wait_for` returns without a response. -/
  | timeout (call : Nat)
  | erase (call : Nat)
  /-- `future.get`. -/
  | get (call : Nat)

namespace ClientState

variable {Response : Type}

def setValue (state : ClientState Response) (index : Nat) (response : Response) :
    ClientState Response :=
  match state.calls[index]? with
  | some call =>
      if call.stage.ended ∨ call.promise.isSome then
        { state with misused := true }
      else
        { state with calls := state.calls.set index { call with promise := some response } }
  | none => { state with misused := true }

def erasePending (state : ClientState Response) (id : UInt32) : ClientState Response :=
  { state with pending := fun key => if key = id then none else state.pending key }

def resolve (state : ClientState Response) (id : UInt32) (response : Response) :
    ClientState Response :=
  match state.pending id with
  | some index => (state.setValue index response).erasePending id
  | none => state

def setCall (state : ClientState Response) (index : Nat) (call : SyncCall Response) :
    ClientState Response :=
  { state with calls := state.calls.set index call }

end ClientState

namespace SyncClient

variable {Response : Type} (client : SyncClient Response)

def step (state : ClientState Response) : ClientAction → Option (ClientState Response)
  | .call connected =>
      let stage := if connected then .entered else .returned client.notConnected
      some { state with calls := state.calls ++ [{ stage }] }
  | .fetchId index =>
      match state.calls[index]? with
      | some ⟨.entered, _, promise⟩ =>
          some { state.setCall index ⟨.numbered, some state.nextId, promise⟩ with
            nextId := state.nextId + 1 }
      | _ => none
  | .throws index =>
      match state.calls[index]? with
      | some ⟨.numbered, id, promise⟩ => some (state.setCall index ⟨.thrown, id, promise⟩)
      | _ => none
  | .setPending index =>
      match state.calls[index]? with
      | some ⟨.numbered, some id, promise⟩ =>
          some { state.setCall index ⟨.waiting, some id, promise⟩ with
            pending := fun key => if key = id then some index else state.pending key }
      | _ => none
  | .resolvePending msg =>
      match client.response msg with
      | some response => some (state.resolve msg.header.requestId response)
      | none => some state
  | .timeout index =>
      match state.calls[index]? with
      | some ⟨.waiting, id, none⟩ => some (state.setCall index ⟨.timedOut, id, none⟩)
      | _ => none
  | .erase index =>
      match state.calls[index]? with
      | some ⟨.timedOut, some id, promise⟩ =>
          some ((state.erasePending id).setCall index ⟨.returned client.timeout, some id, promise⟩)
      | _ => none
  | .get index =>
      match state.calls[index]? with
      | some ⟨.waiting, id, some response⟩ =>
          some (state.setCall index ⟨.returned response, id, some response⟩)
      | _ => none

def system : System (ClientState Response) ClientAction where
  initial := ⟨[], 1, fun _ => none, false⟩
  step := client.step

inductive Stepped (state : ClientState Response) : ClientAction → ClientState Response → Prop where
  | call (connected : Bool) : Stepped state (.call connected)
      { state with calls := state.calls ++
        [{ stage := if connected then .entered else .returned client.notConnected }] }
  | fetchId (index id promise) (found : state.calls[index]? = some ⟨.entered, id, promise⟩) :
      Stepped state (.fetchId index)
        { state.setCall index ⟨.numbered, some state.nextId, promise⟩ with
          nextId := state.nextId + 1 }
  | throws (index id promise) (found : state.calls[index]? = some ⟨.numbered, id, promise⟩) :
      Stepped state (.throws index) (state.setCall index ⟨.thrown, id, promise⟩)
  | setPending (index id promise)
      (found : state.calls[index]? = some ⟨.numbered, some id, promise⟩) :
      Stepped state (.setPending index)
        { state.setCall index ⟨.waiting, some id, promise⟩ with
          pending := fun key => if key = id then some index else state.pending key }
  | resolve (msg response) (read : client.response msg = some response) :
      Stepped state (.resolvePending msg) (state.resolve msg.header.requestId response)
  | skip (msg) : Stepped state (.resolvePending msg) state
  | timeout (index id) (found : state.calls[index]? = some ⟨.waiting, id, none⟩) :
      Stepped state (.timeout index) (state.setCall index ⟨.timedOut, id, none⟩)
  | erase (index id promise) (found : state.calls[index]? = some ⟨.timedOut, some id, promise⟩) :
      Stepped state (.erase index)
        ((state.erasePending id).setCall index ⟨.returned client.timeout, some id, promise⟩)
  | get (index id response)
      (found : state.calls[index]? = some ⟨.waiting, id, some response⟩) :
      Stepped state (.get index)
        (state.setCall index ⟨.returned response, id, some response⟩)

theorem step_stepped {state after : ClientState Response} {action : ClientAction}
    (stepped : client.step state action = some after) : client.Stepped state action after := by
  cases action with
  | call connected =>
      cases stepped
      exact .call connected
  | resolvePending msg =>
      simp only [step] at stepped
      split at stepped
      next response read =>
        cases stepped
        exact .resolve msg response read
      · cases stepped
        exact .skip msg
  | fetchId index | throws index | setPending index | timeout index | erase index | get index =>
      simp only [step] at stepped
      split at stepped
      next found =>
        cases stepped
        constructor
        exact found
      · cases stepped

end SyncClient

/-- The ids handed out so far, by call. -/
structure Numbered (ids : List (Option UInt32)) (nextId : UInt32) : Prop where
  nextId : nextId = .ofNat (ids.countP Option.isSome + 1)
  bounded : ∀ id, some id ∈ ids → id.toNat ≤ ids.countP Option.isSome
  distinct : ∀ (first second : Nat) (id : UInt32), ids[first]? = some (some id) →
    ids[second]? = some (some id) → first = second

namespace Numbered

variable {ids : List (Option UInt32)} {nextId : UInt32}

theorem append_none (numbered : Numbered ids nextId) : Numbered (ids ++ [none]) nextId := by
  have count : (ids ++ [none]).countP Option.isSome = ids.countP Option.isSome := by
    simp [List.countP_append]
  have older : ∀ (index : Nat) (id : UInt32), (ids ++ [none])[index]? = some (some id) →
      ids[index]? = some (some id) := by
    intro index id found
    rw [List.getElem?_append] at found
    split at found
    · exact found
    · rw [List.getElem?_singleton] at found
      split at found <;> simp at found
  refine ⟨by rw [count]; exact numbered.nextId, ?_, ?_⟩
  · intro id membership
    rw [count]
    exact numbered.bounded id (by simpa using membership)
  · intro first second id found found'
    exact numbered.distinct first second id (older first id found) (older second id found')

theorem set_nextId (numbered : Numbered ids nextId) {index : Nat} (found : ids[index]? = some none)
    (few : ids.length < 2 ^ 32) : Numbered (ids.set index (some nextId)) (nextId + 1) := by
  obtain ⟨inRange, unnumbered⟩ := List.getElem?_eq_some_iff.mp found
  have count : (ids.set index (some nextId)).countP Option.isSome =
      ids.countP Option.isSome + 1 := by
    simp [List.countP_set inRange, unnumbered]
  have room : ids.countP Option.isSome < ids.length := by
    by_contra full
    have all := List.countP_eq_length.mp (Nat.le_antisymm List.countP_le_length (Nat.not_lt.mp full))
    have some_none := all none (List.mem_of_getElem? found)
    cases some_none
  have value : nextId.toNat = ids.countP Option.isSome + 1 := by
    rw [numbered.nextId, UInt32.toNat_ofNat']
    exact Nat.mod_eq_of_lt (by omega)
  have fresh : ∀ other : Nat, ids[other]? = some (some nextId) → False := by
    intro other found
    have bound := numbered.bounded nextId (List.mem_of_getElem? found)
    omega
  have known : ∀ (other : Nat) (id : UInt32), (ids.set index (some nextId))[other]? = some (some id) →
      other = index ∧ id = nextId ∨ ids[other]? = some (some id) := by
    intro other id found
    rw [List.getElem?_set] at found
    split at found
    next same =>
      simp only [Option.some.injEq] at found
      exact .inl ⟨same.symm, found.symm⟩
    · exact .inr found
  refine ⟨?_, ?_, ?_⟩
  · rw [count, numbered.nextId]
    apply UInt32.toNat_inj.mp
    simp [UInt32.toNat_add]
  · intro id membership
    rw [count]
    rcases List.mem_or_eq_of_mem_set membership with older | newer
    · exact Nat.le_succ_of_le (numbered.bounded id older)
    · rw [Option.some.injEq] at newer
      rw [newer, value]
  · intro first second id found found'
    rcases known first id found with ⟨rfl, rfl⟩ | older
    · rcases known second id found' with ⟨rfl, _⟩ | older'
      · rfl
      · exact absurd older' (fresh second)
    · rcases known second id found' with ⟨rfl, rfl⟩ | older'
      · exact absurd older (fresh first)
      · exact numbered.distinct first second id older older'

end Numbered

namespace ClientState

variable {Response : Type}

/-- The promise is registered and not set. -/
structure InFlight (call : SyncCall Response) : Prop where
  waits : call.stage = .waiting ∨ call.stage = .timedOut
  unset : call.promise = none

/-- What the map of promises and the calls know of each other. -/
structure Tracked (state : ClientState Response) : Prop where
  numbered : Numbered (state.calls.map SyncCall.requestId) state.nextId
  unnumbered : ∀ call ∈ state.calls, call.stage = .entered → call.requestId = none
  unset : ∀ call ∈ state.calls, call.stage = .entered ∨ call.stage = .numbered →
    call.promise = none
  pending : ∀ id index, state.pending id = some index →
    ∃ call, state.calls[index]? = some call ∧ call.requestId = some id ∧ InFlight call
  proper : state.misused = false

variable {state : ClientState Response} {index : Nat} {call changed : SyncCall Response}

theorem getElem?_set_cases {calls : List (SyncCall Response)} (found : calls[index]? = some call)
    (changed : SyncCall Response) (other : Nat) :
    (calls.set index changed)[other]? = if other = index then some changed else calls[other]? := by
  obtain ⟨inRange, _⟩ := List.getElem?_eq_some_iff.mp found
  rw [List.getElem?_set]
  by_cases same : other = index
  · subst same
    rw [if_pos rfl, if_pos inRange, if_pos rfl]
  · rw [if_neg (Ne.symm same), if_neg same]

theorem Tracked.setCall (tracked : Tracked state) (found : state.calls[index]? = some call)
    (changed : SyncCall Response) (same : changed.requestId = call.requestId) (started : changed.stage ≠ .entered)
    (unset : changed.stage = .numbered → changed.promise = none) (pending : UInt32 → Option Nat)
    (kept : ∀ id other, pending id = some other →
      other ≠ index ∧ state.pending id = some other ∨
      other = index ∧ changed.requestId = some id ∧ InFlight changed) :
    Tracked { state.setCall index changed with pending } := by
  have ids : (state.calls.set index changed).map SyncCall.requestId =
      state.calls.map SyncCall.requestId := by
    obtain ⟨inRange, rfl⟩ := List.getElem?_eq_some_iff.mp found
    rw [List.map_set, same, ← List.getElem_map SyncCall.requestId (h := by simpa using inRange),
      List.set_getElem_self]
  refine ⟨?_, ?_, ?_, ?_, tracked.proper⟩
  · rw [ClientState.setCall, ids]
    exact tracked.numbered
  · intro other membership entered
    rcases List.mem_or_eq_of_mem_set membership with older | rfl
    · exact tracked.unnumbered other older entered
    · exact absurd entered started
  · intro other membership early
    rcases List.mem_or_eq_of_mem_set membership with older | rfl
    · exact tracked.unset other older early
    · exact unset (early.resolve_left started)
  · intro id other registered
    simp only [ClientState.setCall, getElem?_set_cases found]
    rcases kept id other registered with ⟨away, older⟩ | ⟨rfl, requestId, inFlight⟩
    · rw [if_neg away]
      exact tracked.pending id other older
    · rw [if_pos rfl]
      exact ⟨changed, rfl, requestId, inFlight⟩

theorem Tracked.away (tracked : Tracked state) (found : state.calls[index]? = some call)
    (idle : ¬InFlight call) {id : UInt32} {other : Nat}
    (registered : state.pending id = some other) : other ≠ index := by
  rintro rfl
  obtain ⟨waiting, found', _, inFlight⟩ := tracked.pending id other registered
  rw [found, Option.some.injEq] at found'
  exact idle (found' ▸ inFlight)

theorem Tracked.resolve_eq (tracked : Tracked state) {id : UInt32}
    (registered : state.pending id = some index) (response : Response) :
    ∃ call, state.calls[index]? = some call ∧ call.requestId = some id ∧ InFlight call ∧
      state.resolve id response =
        { state.setCall index { call with promise := some response } with
          pending := fun key => if key = id then none else state.pending key } := by
  obtain ⟨call, found, requestId, inFlight⟩ := tracked.pending id index registered
  refine ⟨call, found, requestId, inFlight, ?_⟩
  have usable : ¬(call.stage.ended = true ∨ call.promise.isSome = true) := by
    rcases inFlight.waits with waits | waits <;> simp [waits, Stage.ended, inFlight.unset]
  simp only [resolve, registered, setValue, found, if_neg usable]
  rfl

theorem Tracked.addCall (tracked : Tracked state) (added : SyncCall Response)
    (plain : added.requestId = none) (unset : added.promise = none) :
    Tracked { state with calls := state.calls ++ [added] } := by
  refine ⟨?_, ?_, ?_, ?_, tracked.proper⟩
  · simpa [plain] using tracked.numbered.append_none
  · intro other membership entered
    rcases List.mem_append.mp membership with older | newer
    · exact tracked.unnumbered other older entered
    · rw [List.mem_singleton.mp newer, plain]
  · intro other membership early
    rcases List.mem_append.mp membership with older | newer
    · exact tracked.unset other older early
    · rw [List.mem_singleton.mp newer, unset]
  · intro id index registered
    obtain ⟨waiting, found, known⟩ := tracked.pending id index registered
    obtain ⟨inRange, _⟩ := List.getElem?_eq_some_iff.mp found
    exact ⟨waiting, by simpa [List.getElem?_append_left inRange] using found, known⟩

theorem Tracked.fetchId (tracked : Tracked state) (few : state.calls.length < 2 ^ 32)
    {id : Option UInt32} {promise : Option Response}
    (found : state.calls[index]? = some ⟨.entered, id, promise⟩) :
    Tracked { state.setCall index ⟨.numbered, some state.nextId, promise⟩ with
      nextId := state.nextId + 1 } := by
  have member := List.mem_of_getElem? found
  have unnumbered : id = none := tracked.unnumbered _ member rfl
  have unset : promise = none := tracked.unset _ member (.inl rfl)
  have ids : (state.calls.map SyncCall.requestId)[index]? = some none := by
    rw [List.getElem?_map, found, Option.map_some, unnumbered]
  refine ⟨?_, ?_, ?_, ?_, tracked.proper⟩
  · simpa [ClientState.setCall, List.map_set] using
      tracked.numbered.set_nextId ids (by simpa using few)
  · intro other membership entered
    rcases List.mem_or_eq_of_mem_set membership with older | rfl
    · exact tracked.unnumbered other older entered
    · cases entered
  · intro other membership early
    rcases List.mem_or_eq_of_mem_set membership with older | rfl
    · exact tracked.unset other older early
    · exact unset
  · intro key other registered
    have away : other ≠ index := tracked.away found (by rintro ⟨waits, _⟩; simp at waits) registered
    simp only [ClientState.setCall, getElem?_set_cases found, if_neg away]
    exact tracked.pending key other registered

end ClientState

namespace SyncClient

open ClientState

variable {Response : Type} {client : SyncClient Response} {state after : ClientState Response}
  {action : ClientAction}

theorem tracked_step (tracked : Tracked state) (few : state.calls.length < 2 ^ 32)
    (stepped : client.Stepped state action after) : Tracked after := by
  cases stepped with
  | call connected => exact tracked.addCall _ rfl rfl
  | fetchId index id promise found => exact tracked.fetchId few found
  | skip => exact tracked
  | throws index id promise found =>
      refine tracked.setCall found ⟨.thrown, id, promise⟩ rfl (by simp) (by simp) state.pending ?_
      intro key other registered
      exact .inl ⟨tracked.away found (by rintro ⟨waits, _⟩; simp at waits) registered, registered⟩
  | setPending index id promise found =>
      have unset : promise = none := tracked.unset _ (List.mem_of_getElem? found) (.inr rfl)
      refine tracked.setCall found ⟨.waiting, some id, promise⟩ rfl (by simp) (by simp) _ ?_
      intro key other registered
      split at registered
      next same =>
        cases registered
        exact .inr ⟨rfl, by rw [same], ⟨.inl rfl, unset⟩⟩
      · exact .inl ⟨tracked.away found (by rintro ⟨waits, _⟩; simp at waits) registered, registered⟩
  | resolve msg response read =>
      cases registered : state.pending msg.header.requestId with
      | none => simpa [ClientState.resolve, registered] using tracked
      | some index =>
          obtain ⟨call, found, requestId, inFlight, resolved⟩ :=
            tracked.resolve_eq registered response
          rw [resolved]
          refine tracked.setCall found { call with promise := some response } rfl ?_ ?_ _ ?_
          · rcases inFlight.waits with waits | waits <;> simp [waits]
          · rcases inFlight.waits with waits | waits <;> simp [waits]
          · intro key other registered'
            split at registered'
            · cases registered'
            next different =>
              refine .inl ⟨?_, registered'⟩
              rintro rfl
              obtain ⟨call', found', requestId', _⟩ := tracked.pending key other registered'
              rw [found, Option.some.injEq] at found'
              rw [← found', requestId, Option.some.injEq] at requestId'
              exact different requestId'.symm
  | timeout index id found =>
      refine tracked.setCall found ⟨.timedOut, id, none⟩ rfl (by simp) (by simp) state.pending ?_
      intro key other registered
      by_cases same : other = index
      · subst same
        obtain ⟨call, found', requestId, inFlight⟩ := tracked.pending key other registered
        rw [found, Option.some.injEq] at found'
        exact .inr ⟨rfl, by rw [← requestId, ← found'], ⟨.inr rfl, rfl⟩⟩
      · exact .inl ⟨same, registered⟩
  | erase index id promise found =>
      refine tracked.setCall found ⟨.returned client.timeout, some id, promise⟩ rfl (by simp) (by simp) _ ?_
      intro key other registered
      simp only [erasePending] at registered
      split at registered
      · cases registered
      next different =>
        refine .inl ⟨?_, registered⟩
        rintro rfl
        obtain ⟨call, found', requestId, _⟩ := tracked.pending key other registered
        rw [found, Option.some.injEq] at found'
        rw [← found', Option.some.injEq] at requestId
        exact different requestId.symm
  | get index id response found =>
      refine tracked.setCall found ⟨.returned response, id, some response⟩ rfl (by simp) (by simp) state.pending ?_
      intro key other registered
      exact .inl ⟨tracked.away found (by rintro ⟨_, unset⟩; cases unset) registered, registered⟩

/-- The result of a call answers it: an error of the client, or what a response
with its id said. -/
inductive Answers (client : SyncClient Response) (received : Message → Prop)
    (call : SyncCall Response) : Response → Prop where
  | notConnected : call.requestId = none → Answers client received call client.notConnected
  | timeout : Answers client received call client.timeout
  | response {msg : Message} {result : Response} : received msg →
      call.requestId = some msg.header.requestId → client.response msg = some result →
      Answers client received call result

def Received (history : List (Event (ClientState Response) ClientAction)) (msg : Message) : Prop :=
  ∃ event ∈ history, event.action = .resolvePending msg

/-- Every call answered is answered rightly, and so is every promise set. -/
structure Answered (client : SyncClient Response)
    (history : List (Event (ClientState Response) ClientAction)) (state : ClientState Response) :
    Prop where
  returned : ∀ call ∈ state.calls, ∀ result, call.stage = .returned result →
    client.Answers (Received history) call result
  promised : ∀ call ∈ state.calls, ∀ result, call.promise = some result →
    client.Answers (Received history) call result

theorem Answers.mono {received later : Message → Prop} {call : SyncCall Response}
    {result : Response} (answers : client.Answers received call result)
    (more : ∀ msg, received msg → later msg) : client.Answers later call result := by
  cases answers with
  | notConnected unnumbered => exact .notConnected unnumbered
  | timeout => exact .timeout
  | response arrived requestId read => exact .response (more _ arrived) requestId read

theorem Answers.congr {received : Message → Prop} {call changed : SyncCall Response}
    {result : Response} (answers : client.Answers received call result)
    (same : changed.requestId = call.requestId) : client.Answers received changed result := by
  cases answers with
  | notConnected unnumbered => exact .notConnected (same.trans unnumbered)
  | timeout => exact .timeout
  | response arrived requestId read => exact .response arrived (same.trans requestId) read

variable {history : List (Event (ClientState Response) ClientAction)}

theorem Answered.later (answered : client.Answered history state)
    (event : Event (ClientState Response) ClientAction) :
    client.Answered (event :: history) state := by
  have more : ∀ msg, Received history msg → Received (event :: history) msg := by
    rintro msg ⟨earlier, membership, arrived⟩
    exact ⟨earlier, List.mem_cons_of_mem _ membership, arrived⟩
  exact ⟨fun call membership result returned => (answered.returned call membership result returned).mono more,
    fun call membership result promised => (answered.promised call membership result promised).mono more⟩

theorem Answered.setCall (answered : client.Answered history state) {index : Nat}
    (changed : SyncCall Response) (pending : UInt32 → Option Nat) (nextId : UInt32)
    (returned : ∀ result, changed.stage = .returned result →
      client.Answers (Received history) changed result)
    (promised : ∀ result, changed.promise = some result →
      client.Answers (Received history) changed result) :
    client.Answered history { state.setCall index changed with pending, nextId } := by
  refine ⟨?_, ?_⟩
  · intro call membership result
    rcases List.mem_or_eq_of_mem_set membership with older | rfl
    · exact answered.returned call older result
    · exact returned result
  · intro call membership result
    rcases List.mem_or_eq_of_mem_set membership with older | rfl
    · exact answered.promised call older result
    · exact promised result

theorem answered_step (tracked : Tracked state) (answered : client.Answered history state)
    (stepped : client.Stepped state action after) :
    client.Answered (⟨state, action, after⟩ :: history) after := by
  have earlier := answered.later ⟨state, action, after⟩
  cases stepped with
  | skip => exact earlier
  | call connected =>
      refine ⟨?_, ?_⟩
      · intro call membership result returned
        rcases List.mem_append.mp membership with older | newer
        · exact earlier.returned call older result returned
        · obtain rfl := List.mem_singleton.mp newer
          cases connected with
          | true => cases returned
          | false =>
              cases returned
              exact .notConnected rfl
      · intro call membership result promised
        rcases List.mem_append.mp membership with older | newer
        · exact earlier.promised call older result promised
        · obtain rfl := List.mem_singleton.mp newer
          cases promised
  | fetchId index id promise found =>
      have member := List.mem_of_getElem? found
      refine earlier.setCall ⟨.numbered, some state.nextId, promise⟩ state.pending _ (by simp) ?_
      intro result promised
      have unset : promise = none := tracked.unset _ member (.inl rfl)
      simp [unset] at promised
  | throws index id promise found =>
      refine earlier.setCall ⟨.thrown, id, promise⟩ state.pending state.nextId (by simp) ?_
      intro result promised
      exact (earlier.promised _ (List.mem_of_getElem? found) result promised).congr rfl
  | setPending index id promise found =>
      refine earlier.setCall ⟨.waiting, some id, promise⟩ _ state.nextId (by simp) ?_
      intro result promised
      exact (earlier.promised _ (List.mem_of_getElem? found) result promised).congr rfl
  | timeout index id found =>
      exact earlier.setCall ⟨.timedOut, id, none⟩ state.pending state.nextId (by simp) (by simp)
  | erase index id promise found =>
      refine earlier.setCall ⟨.returned client.timeout, some id, promise⟩ _ state.nextId ?_ ?_
      · intro result returned
        cases returned
        exact .timeout
      · intro result promised
        exact (earlier.promised _ (List.mem_of_getElem? found) result promised).congr rfl
  | get index id response found =>
      have answers := earlier.promised _ (List.mem_of_getElem? found) response rfl
      refine earlier.setCall ⟨.returned response, id, some response⟩ state.pending state.nextId
        ?_ ?_
      · intro result returned
        cases returned
        exact answers.congr rfl
      · intro result promised
        cases promised
        exact answers.congr rfl
  | resolve msg response read =>
      cases registered : state.pending msg.header.requestId with
      | none => simpa [ClientState.resolve, registered] using earlier
      | some index =>
          obtain ⟨call, found, requestId, inFlight, resolved⟩ :=
            tracked.resolve_eq registered response
          rw [resolved] at earlier ⊢
          refine earlier.setCall { call with promise := some response } _ state.nextId ?_ ?_
          · intro result returned
            rcases inFlight.waits with waits | waits <;> simp [waits] at returned
          · intro result promised
            cases promised
            exact .response ⟨_, List.mem_cons_self, rfl⟩ requestId read

/-- A call under way has its id. -/
def Identified (state : ClientState Response) : Prop :=
  ∀ call ∈ state.calls, call.stage = .numbered ∨ call.stage = .waiting ∨ call.stage = .timedOut →
    call.requestId ≠ none

theorem identified_set {index : Nat} {changed : SyncCall Response} (identified : Identified state)
    (kept : changed.stage = .numbered ∨ changed.stage = .waiting ∨ changed.stage = .timedOut →
      changed.requestId ≠ none) : Identified (state.setCall index changed) := by
  intro call membership active
  rcases List.mem_or_eq_of_mem_set membership with older | rfl
  · exact identified call older active
  · exact kept active

theorem identified_step (identified : Identified state)
    (stepped : client.Stepped state action after) : Identified after := by
  cases stepped with
  | skip => exact identified
  | call connected =>
      intro call membership active
      rcases List.mem_append.mp membership with older | newer
      · exact identified call older active
      · obtain rfl := List.mem_singleton.mp newer
        cases connected <;> simp at active
  | fetchId index id promise found => exact identified_set identified (by simp)
  | throws index id promise found => exact identified_set identified (by simp)
  | setPending index id promise found => exact identified_set identified (by simp)
  | erase index id promise found =>
      have kept : Identified (state.erasePending id) := identified
      exact identified_set kept (by simp)
  | get index id response found => exact identified_set identified (by simp)
  | timeout index id found =>
      have known := identified _ (List.mem_of_getElem? found) (.inr (.inl rfl))
      exact identified_set identified fun _ => known
  | resolve msg response read =>
      rw [ClientState.resolve]
      split
      next index registered =>
        rw [erasePending, setValue]
        split
        next call found =>
          split
          · exact identified
          · exact identified_set identified (identified call (List.mem_of_getElem? found))
        · exact identified
      · exact identified

/-- The steps that the thread of a call takes. -/
def own (index : Nat) : ClientAction → Prop
  | .fetchId call | .throws call | .setPending call | .timeout call | .erase call | .get call =>
      call = index
  | .call _ | .resolvePending _ => False

def left (call : SyncCall Response) : Nat :=
  match call.stage with
  | .entered => 4
  | .numbered => 3
  | .waiting => 2
  | .timedOut => 1
  | .returned _ | .thrown => 0

theorem exists_own_step (identified : Identified state) {index : Nat} {call : SyncCall Response}
    (found : state.calls[index]? = some call) (running : call.stage.ended = false) :
    ∃ action after changed, own index action ∧ client.step state action = some after ∧
      after.calls[index]? = some changed ∧ left changed < left call := by
  have updated : ∀ changed, (state.calls.set index changed)[index]? = some changed := by
    intro changed
    rw [getElem?_set_cases found, if_pos rfl]
  have known := identified call (List.mem_of_getElem? found)
  obtain ⟨stage, requestId, promise⟩ := call
  cases stage with
  | returned | thrown => cases running
  | entered =>
      have stepped : client.step state (.fetchId index) =
          some { state.setCall index ⟨.numbered, some state.nextId, promise⟩ with
          nextId := state.nextId + 1 } := by
        simp only [step, found]
      exact ⟨.fetchId index, _, _, rfl, stepped, updated _, by simp [left]⟩
  | numbered =>
      obtain ⟨id, rfl⟩ := Option.ne_none_iff_exists'.mp (known (.inl rfl))
      have stepped : client.step state (.setPending index) =
          some { state.setCall index ⟨.waiting, some id, promise⟩ with
          pending := fun key => if key = id then some index else state.pending key } := by
        simp only [step, found]
      exact ⟨.setPending index, _, _, rfl, stepped, updated _, by simp [left]⟩
  | timedOut =>
      obtain ⟨id, rfl⟩ := Option.ne_none_iff_exists'.mp (known (.inr (.inr rfl)))
      have stepped : client.step state (.erase index) =
          some ((state.erasePending id).setCall index
          ⟨.returned client.timeout, some id, promise⟩) := by
        simp only [step, found]
      exact ⟨.erase index, _, _, rfl, stepped, updated _, by simp [left]⟩
  | waiting =>
      cases promise with
      | none =>
          have stepped : client.step state (.timeout index) =
              some (state.setCall index ⟨.timedOut, requestId, none⟩) := by
            simp only [step, found]
          exact ⟨.timeout index, _, _, rfl, stepped, updated _, by simp [left]⟩
      | some response =>
          have stepped : client.step state (.get index) =
              some (state.setCall index ⟨.returned response, requestId, some response⟩) := by
            simp only [step, found]
          exact ⟨.get index, _, _, rfl, stepped, updated _, by simp [left]⟩

theorem over_of_left {call : SyncCall Response} (done : left call = 0) :
    call.stage.ended = true := by
  obtain ⟨stage, requestId, promise⟩ := call
  cases stage <;> simp_all [left, Stage.ended]

theorem exists_completion (size : Nat) (identified : Identified state) {index : Nat}
    {call : SyncCall Response} (found : state.calls[index]? = some call) (bound : left call ≤ size) :
    ∃ actions last changed, (∀ action ∈ actions, own index action) ∧
      client.system.execute state actions = some last ∧ last.calls[index]? = some changed ∧
      changed.stage.ended = true := by
  induction size generalizing state call with
  | zero => exact ⟨[], state, call, by simp, rfl, found, over_of_left (Nat.le_zero.mp bound)⟩
  | succ size inductionHypothesis =>
      cases running : call.stage.ended with
      | true => exact ⟨[], state, call, by simp, rfl, found, running⟩
      | false =>
          obtain ⟨action, after, changed, mine, stepped, found', fewer⟩ :=
            @exists_own_step _ client _ identified _ _ found running
          obtain ⟨actions, last, final, others, executed, done⟩ := inductionHypothesis
            (identified_step identified (client.step_stepped stepped)) found' (by omega)
          refine ⟨action :: actions, last, final, List.forall_mem_cons.mpr ⟨mine, others⟩, ?_, done⟩
          rw [System.execute, show client.system.step state action = some after from stepped]
          exact executed

theorem length_step (stepped : client.Stepped state action after) :
    state.calls.length ≤ after.calls.length := by
  cases stepped with
  | call connected => simp
  | skip => exact Nat.le_refl _
  | fetchId | throws | setPending | timeout | erase | get => simp [ClientState.setCall, erasePending]
  | resolve msg response read =>
      rw [ClientState.resolve]
      split
      · rw [erasePending, setValue]
        split
        · split <;> simp
        · exact Nat.le_refl _
      · exact Nat.le_refl _

structure Faithful (client : SyncClient Response)
    (history : List (Event (ClientState Response) ClientAction)) (state : ClientState Response) :
    Prop where
  /-- A call returns an error of the client or the payload of a response with its
  own id. -/
  answered : ∀ call ∈ state.calls, ∀ result, call.stage = .returned result →
    client.Answers (Received history) call result
  /-- No promise was set twice, or after its call was over. -/
  proper : state.misused = false
  /-- Nothing is left in the map when all calls are over. -/
  cleared : (∀ call ∈ state.calls, call.stage.ended = true) → ∀ id, state.pending id = none
  /-- Every call comes to its end. -/
  ends : ∀ index call, state.calls[index]? = some call → ∃ actions last changed,
    (∀ action ∈ actions, own index action) ∧ client.system.execute state actions = some last ∧
      last.calls[index]? = some changed ∧ changed.stage.ended = true

theorem tracked_initial : Tracked client.system.initial where
  numbered := ⟨rfl, by simp [system], by simp [system]⟩
  unnumbered _ membership := nomatch membership
  unset _ membership := nomatch membership
  pending _ _ registered := nomatch registered
  proper := rfl

theorem answered_initial : client.Answered [] client.system.initial where
  returned _ membership := nomatch membership
  promised _ membership := nomatch membership

theorem run_faithful (run : Run client.system history state) (few : state.calls.length < 2 ^ 32) :
    client.Faithful history state := by
  obtain ⟨known, identified⟩ := run.historyInvariant (fun history state =>
      (state.calls.length < 2 ^ 32 → Tracked state ∧ client.Answered history state) ∧
        Identified state)
    ⟨fun _ => ⟨tracked_initial, answered_initial⟩, fun _ membership => nomatch membership⟩ (by
      rintro history before action after _ ⟨known, identified⟩ stepped
      have moved := client.step_stepped stepped
      refine ⟨?_, identified_step identified moved⟩
      intro few
      have fewBefore := Nat.lt_of_le_of_lt (length_step moved) few
      obtain ⟨tracked, answered⟩ := known fewBefore
      exact ⟨tracked_step tracked fewBefore moved, answered_step tracked answered moved⟩)
  obtain ⟨tracked, answered⟩ := known few
  refine ⟨answered.returned, tracked.proper, ?_, ?_⟩
  · intro finished id
    by_contra registered
    obtain ⟨index, registered⟩ := Option.ne_none_iff_exists'.mp registered
    obtain ⟨call, found, _, inFlight⟩ := tracked.pending id index registered
    have done := finished call (List.mem_of_getElem? found)
    rcases inFlight.waits with waits | waits <;> simp [waits, Stage.ended] at done
  · intro index call found
    exact exists_completion (left call) identified found (Nat.le_refl _)

end SyncClient

end FileServer.Rpc
