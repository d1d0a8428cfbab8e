import FileServer.Routing.Replies
import FileServer.Rpc.Settlement

/-!
# Remote calls

What the calls of `FileClient` and `RpcClient` get from the servers over one
connection.
-/

namespace FileServer.Routing

open FileServer.Json FileServer.Protocol FileServer.Rpc FileServer.Transition

section Calls

variable {library : Library} (front : Front) (caller : Caller library)
  {history : List (LinkEvent (front.processor library) caller)} {state : Link caller}

/-- A call that returns has failed at the client or has the response to its own
frame, and no frame is performed twice. -/
theorem calls_exchanged (run : Run (link (front.processor library) caller) history state)
    (few : state.client.calls.length < 2 ^ 32) (short : Short history state) :
    Exchanged history state :=
  exchanged_of_run run few short

/-- Once everything has arrived over a connection that lasts, every frame has been
performed, and its call has the response to it or has timed out. -/
theorem responses_delivered (run : Run (link (front.processor library) caller) history state)
    (few : state.client.calls.length < 2 ^ 32) (short : Short history state)
    (settled : Settled state) : ∀ index msg, (index, msg) ∈ state.posted →
      ∃ call work, state.client.calls[index]? = some call ∧
        (Encoder.sent msg, work) ∈ recorded performed history ∧
        ∀ response result,
          (front.processor library).process (Encoder.sent msg) work = .ok response →
          caller.client.response (Encoder.sent response.message) = some result →
          call.promise = some result ∨ call.stage = .returned caller.client.timeout :=
  fun _ _ posted => responses_arrive run few short settled posted

end Calls

section Ping

def pingLibrary : Library := sampleLibrary [.object [("method", .string [])], .object []]

def pingFront : Front := .rpcServer fun _ => some false

/-- A method without a name is called twice and returns the empty object.  The frames
arrive in two pieces, the call that was made first times out, and its response
arrives afterwards. -/
def ping : List (LinkAction RpcRequest (Reads Value)) :=
  [.call ⟨[], .null, []⟩, .call ⟨[], .null, []⟩, .fetchId 1, .fetchId 0, .setPending 0,
    .setPending 1, .runInLoop 1, .runInLoop 0, .send, .send, .receive 50, .timeout 0, .receive 50,
    .finish 1 (.ok (.object [])), .erase 0, .finish 0 (.ok (.object [])), .read 30, .read 200,
    .resolve, .resolve, .get 1]

def pinged : List (LinkEvent (pingFront.processor pingLibrary) (rpcCaller pingLibrary)) :=
  (link (pingFront.processor pingLibrary) (rpcCaller pingLibrary)).events
    (link (pingFront.processor pingLibrary) (rpcCaller pingLibrary)).initial ping

theorem ping_runs : ((link (pingFront.processor pingLibrary) (rpcCaller pingLibrary)).execute
    (link (pingFront.processor pingLibrary) (rpcCaller pingLibrary)).initial ping).isSome := by
  decide +kernel

def afterPing : Link (rpcCaller pingLibrary) :=
  ((link (pingFront.processor pingLibrary) (rpcCaller pingLibrary)).execute
    (link (pingFront.processor pingLibrary) (rpcCaller pingLibrary)).initial ping).get ping_runs

theorem ping_run :
    Run (link (pingFront.processor pingLibrary) (rpcCaller pingLibrary)) pinged afterPing :=
  (link (pingFront.processor pingLibrary) (rpcCaller pingLibrary)).run ping ping_runs

theorem ping_checked :
    (∀ entry ∈ afterPing.posted, entry.2.header.magic = kProtocolMagic ∧
      entry.2.jsonBody.length < 2 ^ 32 ∧ entry.2.binaryData.length < 2 ^ 32) ∧
    (∀ response ∈ replies pinged, response.message.header.magic = kProtocolMagic ∧
      response.message.jsonBody.length < 2 ^ 32 ∧ response.message.binaryData.length < 2 ^ 32) ∧
    afterPing.client.calls.length < 2 ^ 32 ∧ afterPing.posted.map Prod.fst = [1, 0] ∧
    afterPing.connected = true ∧ afterPing.accepted = true ∧ afterPing.pool.escaped = none ∧
    afterPing.functors = [] ∧ afterPing.up.unread = [] ∧ afterPing.pool.queued = [] ∧
    afterPing.down.unread = [] ∧ afterPing.decoded = [] := by
  decide +kernel

theorem ping_short : Short pinged afterPing := by
  obtain ⟨frames, responses, _⟩ := ping_checked
  exact ⟨fun entry posted => ⟨(frames entry posted).1, (frames entry posted).2.1, (frames entry posted).2.2⟩,
    fun response replied => ⟨(responses response replied).1, (responses response replied).2.1,
      (responses response replied).2.2⟩⟩

theorem ping_few : afterPing.client.calls.length < 2 ^ 32 := ping_checked.2.2.1

theorem ping_settled : Settled afterPing := by
  obtain ⟨_, _, _, _, connected, accepted, contained, functors, frames, tasks, responses, decoded⟩ :=
    ping_checked
  exact ⟨connected, accepted, contained, functors, frames, tasks, responses, decoded⟩

set_option maxRecDepth 50000 in
theorem ping_ended : afterPing.client.calls.map SyncCall.stage =
    [.returned (rpcCaller pingLibrary).client.timeout, .returned (.object [])] := by
  with_unfolding_all rfl

/-- The call that timed out and the other one are both exchanged. -/
theorem calls_exchanged_ping : ∃ history state,
    Run (link (pingFront.processor pingLibrary) (rpcCaller pingLibrary)) history state ∧
      state.client.calls.map SyncCall.stage =
        [.returned (rpcCaller pingLibrary).client.timeout, .returned (.object [])] ∧
      Exchanged history state :=
  ⟨pinged, afterPing, ping_run, ping_ended,
    calls_exchanged pingFront (rpcCaller pingLibrary) ping_run ping_few ping_short⟩

/-- Both frames have been performed. -/
theorem responses_delivered_ping : ∃ history state,
    Run (link (pingFront.processor pingLibrary) (rpcCaller pingLibrary)) history state ∧
      Settled state ∧ state.posted.map Prod.fst = [1, 0] ∧
      state.client.calls.map SyncCall.stage =
        [.returned (rpcCaller pingLibrary).client.timeout, .returned (.object [])] ∧
      ∀ entry ∈ state.posted, ∃ call work, state.client.calls[entry.1]? = some call ∧
        (Encoder.sent entry.2, work) ∈ recorded performed history := by
  refine ⟨pinged, afterPing, ping_run, ping_settled, ping_checked.2.2.2.1, ping_ended, ?_⟩
  intro entry listed
  obtain ⟨call, work, found, performs, _⟩ :=
    responses_delivered pingFront (rpcCaller pingLibrary) ping_run ping_few ping_short
      ping_settled entry.1 entry.2 listed
  exact ⟨call, work, found, performs⟩

end Ping

end FileServer.Routing
