import FileServer.Metadata.Ownership
import FileServer.Storage.Node
import FileServer.Transition.Program

/-!
# The gateway

`Gateway.dispatch` as a program over its calls to the metadata service and to
the storage nodes, and what those services may do with a call.
-/

namespace FileServer.Gateway

open FileServer.Metadata FileServer.Storage FileServer.Transition

/-- What `call` raises, and any other exception. -/
inductive Failure where
  | error (error : Error)
  | os
  | other
  deriving DecidableEq

inductive Call where
  | metadata (request : Internal)
  | put (address : String) (cid : Ident) (authorization : Ticket) (data : Bytes)
  | get (address : String) (cid : Ident) (length : Nat) (sha : Option Sha)
  deriving DecidableEq

abbrev Call.Answer : Call → Type
  | .metadata _ => Except Failure Response
  | .put .. => Except Failure Unit
  | .get .. => Except Failure Bytes

def Call.fail (failure : Failure) : (call : Call) → call.Answer
  | .metadata _ => .error failure
  | .put .. => .error failure
  | .get .. => .error failure

abbrev Handler := Program Call Call.Answer Failure

/-- A frame of a user. -/
structure Request where
  owner : Option Value
  token : Option Value
  cmd : Cmd
  fields : Fields

/-- A frame as it arrives, a JSON object by its keys. -/
abbrev Frame := String → Option Value

def command : Option Value → Cmd
  | some (.text "init") => .init
  | some (.text "status") => .status
  | some (.text "prepare") => .prepare
  | some (.text "complete") => .complete
  | some (.text "cancel") => .cancel
  | some (.text "manifest") => .manifest
  | some (.text "locations") => .locations
  | some (.text "delete") => .delete
  | some (.text "bad_replica") => .badReplica
  | some (.text "confirm") => .confirm
  | some (.text "heartbeat") => .heartbeat
  | some (.text "upload") => .upload
  | some (.text "download") => .download
  | _ => .other

/-- What the gateway takes from a frame: the keys of its allowlist. -/
def Frame.request (frame : Frame) : Request where
  owner := some ((frame "owner").getD (.text ""))
  token := some ((frame "token").getD (.text ""))
  cmd := command (frame "cmd")
  fields := {
    uploadId := frame "upload_id", objectId := frame "object_id", seq := frame "seq"
    sha256 := frame "sha256", size := frame "size", name := frame "name"
    cursor := frame "cursor" }

/-- What the gateway answers. -/
inductive Result where
  | metadata (response : Response)
  | content (length : Nat) (sha : Option Sha) (data : Bytes)
  deriving DecidableEq

/-- `require` of the services. -/
def demand (condition : Prop) [Decidable condition] (code : Code) (message : String) :
    Except Failure Unit :=
  require condition (.error ⟨code, message⟩)

def metadata (request : Internal) : Handler Response := .send (.metadata request) id

def put (address : String) (cid : Ident) (authorization : Ticket) (data : Bytes) : Handler Unit :=
  .send (.put address cid authorization data) id

def get (address : String) (cid : Ident) (length : Nat) (sha : Option Sha) : Handler Bytes :=
  .send (.get address cid length sha) id

def ascii (text : String) : Bool := text.toList.all fun char => char.toNat < 128

def authenticate (c : Config) (request : Request) : Except Failure String := do
  -- a list or an object is no key of a dictionary
  require (request.owner ≠ some .other) .other
  let owner ← found (request.owner.bind Value.text?) (.error ⟨.auth, "invalid user credential"⟩)
  let secret ← found (c.users.lookup owner) (.error ⟨.auth, "invalid user credential"⟩)
  let token ← found (request.token.bind Value.text?) (.error ⟨.auth, "invalid user credential"⟩)
  require (ascii token ∧ ascii secret) .other
  demand (token = secret) .auth "invalid user credential"
  return owner

section Handlers

variable (digest : Bytes → Sha) (c : Config) (owner : String) (fields : Fields)

def deliver (data : Bytes) : Response → Handler Result
  | .prepared cid length _ positions => do
      demand (data.length = length) .invalid "wrong chunk length"
      Program.each (fun position => put position.address cid position.authorization data) positions
      let result ← metadata ⟨owner, .confirm, fields, none, none⟩
      demand (c.responseFault = false) .injected "confirmation response lost"
      return .metadata result
  | _ => .done (.error .other)

def upload (data : Bytes) : Handler Result := do
  demand (fields.sha256 = some (.digest (digest data))) .checksum "upload checksum mismatch"
  let prepared ← metadata ⟨owner, .prepare, fields, none, none⟩
  deliver c owner fields data prepared

def readCopy (cid : Ident) (length : Nat) (sha : Option Sha) (address : String) :
    Handler Result := do
  let binary ← get address cid length sha
  demand (binary.length = length ∧ sha = some (digest binary)) .corrupt "download checksum mismatch"
  let _ ← metadata ⟨owner, .manifest, fields, none, none⟩
  return .content binary.length sha binary

/-- The loop of a download over the locations; a failed attempt marks the copy. -/
def readAny (cid : Ident) (length : Nat) (sha : Option Sha) :
    List (NodeId × String) → Handler Result
  | [] => .done (.error (.error
      ⟨.dataUnavailable, "no readable verified replica; metadata retained"⟩))
  | (nid, address) :: rest =>
      (readCopy digest owner fields cid length sha address).recover fun failure =>
        if failure = .other then .done (.error failure)
        else do
          let _ ← metadata ⟨owner, .badReplica, fields, some cid, some nid⟩
          readAny cid length sha rest

/-- A download once the chunk is located. -/
def collect : Response → Handler Result
  | .reply (.located cid length sha positions) => readAny digest owner fields cid length sha positions
  | _ => .done (.error .other)

def download : Handler Result := do
  let located ← metadata ⟨owner, .locations, fields, none, none⟩
  collect digest owner fields located

end Handlers

/-- The commands passed on as they are. -/
def allowed : List Cmd := [.init, .status, .complete, .cancel, .manifest, .delete]

def dispatch (digest : Bytes → Sha) (c : Config) (request : Request) (data : Bytes) :
    Handler Result := do
  let owner ← authenticate c request
  if request.cmd ∈ allowed then
    demand (data = []) .invalid "invalid request"
    return .metadata (← metadata ⟨owner, request.cmd, request.fields, none, none⟩)
  else
    match request.cmd with
    | .upload => upload digest c owner request.fields data
    | .download => download digest owner request.fields
    | _ => .done (.error (.error ⟨.invalid, "unsupported user command"⟩))

/-- What a call did: the transactions run for it with the tables before and
after each, and the copy a node held of the chunk asked for. -/
structure Effect where
  transactions : List (Database × Database)
  copy : Option Bytes

abbrev Exchanges := List (Exchange Call Call.Answer Effect)

/-- The answer that carries the result of a service. -/
def reply {α : Type} : Attempt α → Except Failure α
  | .ok value => .ok value
  | .error failure => .error (.error failure)

theorem reply_ne_other {α : Type} {result : Attempt α} : reply result ≠ .error .other := by
  cases result <;> simp [reply]

/-- The tables a transaction leaves. -/
def committed {α : Type} (db : Database) : Attempt (α × Database) → Database
  | .ok (_, db) => db
  | .error _ => db

/-- The upload and position that a `confirm` names. -/
def confirmed? (fields : Fields) : Option (Ident × Int) :=
  (fields.uploadId.bind Value.ident?).bind fun upload =>
    (fields.seq.bind Value.int?).map fun seq => (upload, seq)

section Services

variable (digest : Bytes → Sha) (e : Engine) (c : Config)

/-- What the services do with a call.  A call that is not answered, or whose
answer is lost, raises at the gateway whatever was done for it. -/
inductive Serves : (call : Call) → call.Answer → Effect → Prop where
  | refused {call : Call} {failure : Failure} (raised : failure ≠ .other)
      (copy : Option Bytes) :
      Serves call (call.fail failure) ⟨[], copy⟩
  | transaction {request : Internal} (single : request.cmd ≠ .confirm) (now : Time)
      (ident : Nat → Ident) (db : Database) {answer : Except Failure Response}
      (answered : answer = reply ((db.dispatchBy e c now ident request).map Prod.fst) ∨
        ∃ failure, failure ≠ .other ∧ answer = .error failure) :
      Serves (.metadata request) answer
        ⟨[(db, committed db (db.dispatchBy e c now ident request))], none⟩
  | unconfirmed {request : Internal} (confirms : request.cmd = .confirm) {upload : Ident}
      {seq : Int} (named : confirmed? request.fields = some (upload, seq)) (now : Time)
      (db : Database) {failure : Failure} (raised : failure ≠ .other) :
      Serves (.metadata request) (.error failure) ⟨[(db, db)], none⟩
  | confirmed {request : Internal} (confirms : request.cmd = .confirm) {upload : Ident}
      {seq : Int} (named : confirmed? request.fields = some (upload, seq)) (now now' : Time)
      {db db' : Database} (later : Later db db') {op : Confirming}
      (begun : db.confirmBegin c now upload (some request.owner) seq = .ok op)
      {answer : Except Failure Response}
      (answered : answer = reply ((db'.confirmCommit c now' op).map fun result =>
          .confirmed result.1) ∨
        ∃ failure, failure ≠ .other ∧ answer = .error failure) :
      Serves (.metadata request) answer
        ⟨[(db, db), (db', committed db' (db'.confirmCommit c now' op))], none⟩
  | stored {address : String} {cid : Ident} {ticket : Ticket} {data : Bytes} {now : Time}
      {node node' : Node} (accepted : node.put digest now cid ticket data = .ok node') :
      Serves (.put address cid ticket data) (.ok ()) ⟨[], node.files.get? cid⟩
  | read {address : String} {cid : Ident} {length : Nat} {sha : Option Sha}
      (copy : Option Bytes) :
      Serves (.get address cid length sha) (reply (Node.read digest copy length sha)) ⟨[], copy⟩

variable {digest e c}

/-- A transaction that succeeds and whose reply arrives. -/
theorem Serves.answered {request : Internal} (single : request.cmd ≠ .confirm) {now : Time}
    {ident : Nat → Ident} {db : Database} {result : Response × Database}
    (dispatched : db.dispatchBy e c now ident request = .ok result) :
    Serves digest e c (.metadata request) (.ok result.1) ⟨[(db, result.2)], none⟩ := by
  have transaction : Serves digest e c (.metadata request)
      (reply ((db.dispatchBy e c now ident request).map Prod.fst)) _ :=
    .transaction single now ident db (.inl rfl)
  rw [dispatched] at transaction
  exact transaction

/-- A reply comes from a transaction that succeeded. -/
theorem Serves.dispatched {request : Internal} (single : request.cmd ≠ .confirm)
    {response : Response} {effect : Effect}
    (served : Serves digest e c (.metadata request) (.ok response) effect) :
    ∃ now ident db db', db.dispatchBy e c now ident request = .ok (response, db') ∧
      effect = ⟨[(db, db')], none⟩ := by
  generalize answered : (Except.ok response : Except Failure Response) = answer at served
  cases served with
  | refused raised copy => cases answered
  | confirmed confirms => exact absurd confirms single
  | unconfirmed confirms => cases answered
  | transaction single now ident db given =>
      rcases given with rfl | ⟨failure, _, rfl⟩
      · cases dispatched : db.dispatchBy e c now ident request with
        | error failure => simp [dispatched, reply, Except.map] at answered
        | ok result =>
            simp only [dispatched, reply, Except.map, Except.ok.injEq] at answered
            exact ⟨now, ident, db, result.2, by rw [dispatched, answered], rfl⟩
      · cases answered

/-- A transaction that changes the tables is one that succeeded. -/
theorem Serves.transactions {request : Internal} {answer : Except Failure Response}
    {effect : Effect} (served : Serves digest e c (.metadata request) answer effect) :
    ∀ step ∈ effect.transactions, step.2 = step.1 ∨
      (request.cmd ≠ .confirm ∧ ∃ now ident response,
        step.1.dispatchBy e c now ident request = .ok (response, step.2)) ∨
      request.cmd = .confirm ∧ ∃ now op bytes, step.1.confirmCommit c now op = .ok (bytes, step.2) := by
  cases served with
  | refused raised copy => simp
  | unconfirmed confirms named now db raised => simp
  | transaction single now ident db answered =>
      rw [List.forall_mem_singleton]
      cases dispatched : db.dispatchBy e c now ident request with
      | error failure => exact .inl rfl
      | ok result => exact .inr (.inl ⟨single, now, ident, result.1, dispatched⟩)
  | @confirmed _ confirms _ _ named now now' db db' later op begun _ answered =>
      refine List.forall_mem_cons.mpr ⟨.inl rfl, List.forall_mem_singleton.mpr ?_⟩
      cases committing : db'.confirmCommit c now' op with
      | error failure => exact .inl rfl
      | ok result => exact .inr (.inr ⟨confirms, now', op, result.1, committing⟩)

end Services

end FileServer.Gateway
