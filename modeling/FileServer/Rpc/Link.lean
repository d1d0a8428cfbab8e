import FileServer.Protocol.Pipes
import FileServer.Rpc.Clients
import FileServer.Rpc.Replies
import FileServer.Transition.Settling

/-!
# A client connected to a server

The calls of one client, the two ways of its connection and the pool of the
server, from the moment of the connection on.  Each end may lose the connection,
and what is still on the way is then left unread.
-/

namespace FileServer.Rpc

open FileServer.Json FileServer.Protocol FileServer.Transition

def kRequest : UInt32 := 0x01

/-- A client with what its calls are given and what they serialise. -/
structure Caller (library : Library) where
  Request : Type
  Result : Type
  client : SyncClient Result
  serialize : Request → Reads Bytes
  binary : Request → Bytes

namespace Caller

variable {library : Library} (caller : Caller library)

/-- The frame of a request; `Encode` fills in its lengths. -/
def message (id : UInt32) (request : caller.Request) (body : Bytes) : Message :=
  ⟨{ msgType := kRequest, requestId := id }, body, caller.binary request⟩

end Caller

/-- The arguments of `SendRequestWithBinary`. -/
structure FileRequest where
  reqJson : Value
  binary : Bytes

def fileCaller (library : Library) : Caller library where
  Request := FileRequest
  Result := ClientResponse
  client := fileClient library
  serialize request := library.dump request.reqJson
  binary := FileRequest.binary

/-- The arguments of `Call`. -/
structure RpcRequest where
  method : Bytes
  args : Value
  binary : Bytes

/-- A key of a `std::map` is set. -/
def setField (key : String) (value : Value) : List (String × Value) → List (String × Value)
  | [] => [(key, value)]
  | (other, found) :: rest =>
      if key = other then (key, value) :: rest
      else if key < other then (key, value) :: (other, found) :: rest
      else (other, found) :: setField key value rest

/-- `j[key] = value`. -/
def assign (key : String) (value : Value) : Value → Reads Value
  | .null => .ok (.object [(key, value)])
  | .object fields => .ok (.object (setField key value fields))
  | _ => .error (.json 305)

def rpcCaller (library : Library) : Caller library where
  Request := RpcRequest
  Result := Value
  client := rpcClient library
  serialize request := do
    let j ← assign "method" (.string request.method) request.args
    library.dump j
  binary := RpcRequest.binary

variable {library : Library}

/-- A client and a server with the connection between them. -/
structure Link (caller : Caller library) where
  client : ClientState caller.Result
  requests : List caller.Request := []
  /-- The calls that have given their frames to the loop. -/
  posted : List (Nat × Message) := []
  /-- The functors that the loop has not run. -/
  functors : List Message := []
  /-- `connection_` is set. -/
  connected : Bool := true
  up : Pipe := {}
  pool : Pool library := {}
  /-- The server still has the connection. -/
  accepted : Bool := true
  down : Pipe := {}
  /-- Frames that `OnMessage` of the client has not resolved. -/
  decoded : List Message := []

inductive LinkAction (Request Work : Type) where
  | call (request : Request)
  | fetchId (call : Nat)
  | throws (call : Nat)
  | setPending (call : Nat)
  | runInLoop (call : Nat)
  /-- The loop runs its first functor. -/
  | send
  /-- `OnMessage` of the server. -/
  | receive (count : Nat)
  /-- A worker performs a task and sends its response. -/
  | finish (index : Nat) (work : Work)
  /-- `OnMessage` of the client decodes what has arrived. -/
  | read (count : Nat)
  /-- `ResolvePending` for the next decoded frame. -/
  | resolve
  | timeout (call : Nat)
  | erase (call : Nat)
  | get (call : Nat)
  /-- The client loses its connection, or gives it up. -/
  | disconnect
  /-- The server loses the connection. -/
  | close

def Processor.reply (processor : Processor library) (pool : Pool library) (index : Nat)
    (work : processor.Work) : Option (Response library) :=
  pool.queued[index]?.bind fun msg => (processor.process msg work).toOption

namespace Link

variable {caller : Caller library} (link : Link caller)

def frame (index : Nat) : Option Message := do
  let call ← link.client.calls[index]?
  let id ← call.requestId
  let request ← link.requests[index]?
  let body ← (caller.serialize request).toOption
  return caller.message id request body

/-- The call has given its frame to the loop. -/
def Posted (index : Nat) : Prop := index ∈ link.posted.map Prod.fst

instance (index : Nat) : Decidable (link.Posted index) :=
  inferInstanceAs (Decidable (index ∈ _))

def proceed (action : ClientAction) : Option (Link caller) :=
  (caller.client.step link.client action).map fun client => { link with client }

/-- The way down after a task; its response is sent while the server has the
connection. -/
def answered : Option (Response library) → Pipe
  | some response => if link.accepted then link.down.write response.message else link.down
  | none => link.down

end Link

variable (processor : Processor library) (caller : Caller library)

def linkStep (link : Link caller) : LinkAction caller.Request processor.Work → Option (Link caller)
  | .call request => do
      let next ← link.proceed (.call link.connected)
      return { next with requests := link.requests ++ [request] }
  | .fetchId index => link.proceed (.fetchId index)
  | .throws index => if link.frame index = none then link.proceed (.throws index) else none
  | .setPending index =>
      if (link.frame index).isSome then link.proceed (.setPending index) else none
  | .runInLoop index =>
      match link.client.calls[index]?.map SyncCall.stage, link.frame index with
      | some .waiting, some msg =>
          if link.Posted index then none
          else some { link with
            posted := link.posted ++ [(index, msg)], functors := link.functors ++ [msg] }
      | _, _ => none
  | .send =>
      match link.functors with
      | [] => none
      | msg :: rest => some { link with
          functors := rest, up := if link.connected then link.up.write msg else link.up }
  | .receive count =>
      if link.accepted then
        (processor.system.step link.pool (.receive (link.up.read count).1)).map fun pool =>
          { link with pool, up := (link.up.read count).2 }
      else none
  | .finish index work =>
      (processor.system.step link.pool (.finish index work)).map fun pool =>
        { link with pool, down := link.answered (processor.reply link.pool index work) }
  | .read count => some { link with
      decoded := link.decoded ++ (link.down.read count).1, down := (link.down.read count).2 }
  | .resolve =>
      match link.decoded with
      | [] => none
      | msg :: rest => (link.proceed (.resolvePending msg)).map ({ · with decoded := rest })
  | .timeout index => if link.Posted index then link.proceed (.timeout index) else none
  | .erase index => link.proceed (.erase index)
  | .get index => if link.Posted index then link.proceed (.get index) else none
  | .disconnect => some { link with connected := false }
  | .close => some { link with accepted := false }

def link : System (Link caller) (LinkAction caller.Request processor.Work) where
  initial := { client := caller.client.system.initial }
  step := linkStep processor caller

end FileServer.Rpc
