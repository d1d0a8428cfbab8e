import FileServer.Gateway.Isolation
import FileServer.Sequence.Pieces

/-!
# The client

`Client.upload` and `Client.download` as programs over the requests to the
gateway and the operations on the client's own files, and what can become of a
call.
-/

namespace FileServer.Client

open FileServer.Gateway (Exchanges Failure Request Result)
open FileServer.Metadata FileServer.Sequence FileServer.Storage FileServer.Transition

/-- A request that is sent once, or an operation on the file that a download
writes beside its target. -/
inductive Call where
  | request (request : Request) (data : Bytes)
  | create
  | write (data : Bytes)
  | flush
  | replace
  | sync
  | discard

abbrev Call.Answer : Call → Type
  | .request .. => Except Failure Result
  | _ => Except Failure Unit

def Call.fail (failure : Failure) : (call : Call) → call.Answer
  | .request .. => .error failure
  | .create | .write _ | .flush | .replace | .sync | .discard => .error failure

abbrev Handler := Program Call Call.Answer Failure

/-- `require` of the client. -/
def demand (condition : Prop) [Decidable condition] (code : Code) (message : String) :
    Except Failure Unit :=
  require condition (.error ⟨code, message⟩)

def call (request : Request) (data : Bytes) : Handler Result := .send (.request request data) id

def create : Handler Unit := .send .create id

def write (data : Bytes) : Handler Unit := .send (.write data) id

def flush : Handler Unit := .send .flush id

def replace : Handler Unit := .send .replace id

def sync : Handler Unit := .send .sync id

/-- The temporary file is removed if it is still there. -/
def discard : Handler Unit := .send .discard id

/-- The keys of an answer that are read. -/
structure Status where
  object : Ident
  state : UploadState
  chunkSize : Nat
  size : Nat
  missing : List Nat
  nextCursor : Option Nat

structure Manifest where
  size : Nat
  chunkSize : Nat
  chunks : Nat

structure Content where
  length : Nat
  sha : Option Sha
  data : Bytes

def uploadId : Result → Except Failure Ident
  | .metadata (.reply (.initialized _ upload _ _)) => .ok upload
  | _ => .error .other

def status : Result → Except Failure Status
  | .metadata (.reply (.status object state _ _ chunkSize size missing nextCursor)) =>
      .ok ⟨object, state, chunkSize, size, missing, nextCursor⟩
  | _ => .error .other

def manifest : Result → Except Failure Manifest
  | .metadata (.reply (.manifest _ _ size chunkSize chunks)) => .ok ⟨size, chunkSize, chunks⟩
  | _ => .error .other

def content : Result → Except Failure Content
  | .content length sha data => .ok ⟨length, sha, data⟩
  | _ => .error .other

def published (object : Ident) : Result := .metadata (.reply (.published object))

def noFields : Fields where
  uploadId := none
  objectId := none
  seq := none
  sha256 := none
  size := none
  name := none
  cursor := none

def initFields (size : Nat) (name : Value) : Fields :=
  { noFields with size := some (.int size), name := some name }

def statusFields (upload : Ident) (cursor : Option Nat) : Fields :=
  { noFields with uploadId := some (.ident upload), cursor := cursor.map fun seq => .int seq }

def chunkFields (upload : Ident) (seq : Nat) (sha : Sha) : Fields :=
  { noFields with
    uploadId := some (.ident upload), seq := some (.int seq), sha256 := some (.digest sha) }

def uploadFields (upload : Ident) : Fields :=
  { noFields with uploadId := some (.ident upload) }

def objectFields (object : Ident) (seq : Option Nat) : Fields :=
  { noFields with objectId := some (.ident object), seq := seq.map fun seq => .int seq }

/-- A request that may be sent again as often as `left` after an `OSError`. -/
def attempt (request : Request) (data : Bytes) : Nat → Handler Result
  | 0 => call request data
  | left + 1 => (call request data).recover fun failure =>
      if failure = .os then attempt request data left else .done (.error failure)

/-- The user a client acts for. -/
structure Account where
  owner : Value
  token : Value

namespace Account

variable (client : Account) (digest : Bytes → Sha)

def frame (cmd : Cmd) (fields : Fields) : Request := ⟨some client.owner, some client.token, cmd, fields⟩

def request (cmd : Cmd) (fields : Fields) (data : Bytes) : Handler Result :=
  attempt (client.frame cmd fields) data 2

def askStatus (upload : Ident) (cursor : Option Nat) : Handler Status := do
  let answer ← client.request .status (statusFields upload cursor) []
  status answer

def send (file : Bytes) (upload : Ident) (chunkSize seq : Nat) : Handler Result :=
  let data := piece chunkSize file seq
  client.request .upload (chunkFields upload seq (digest data)) data

/-- The loop over the pages of missing chunks, at most as many as `fuel`.  A
send that the pool cancels after another has failed is one whose requests do
not arrive. -/
def sendMissing (file : Bytes) (upload : Ident) (chunkSize : Nat) : Nat → Nat → Handler Unit
  | 0, _ => .done (.error .other)
  | fuel + 1, cursor => do
      let page ← client.askStatus upload (some cursor)
      Program.all (client.send digest file upload chunkSize) page.missing
      match page.nextCursor with
      | none => return ()
      | some cursor => sendMissing file upload chunkSize fuel cursor

def continueUpload (file : Bytes) (fuel : Nat) (upload : Ident) : Handler Result := do
  let status ← client.askStatus upload none
  demand (file.length = status.size) .conflict "local file size changed"
  if status.state = .completed then
    return published status.object
  else
    client.sendMissing digest file upload status.chunkSize fuel 0
    client.request .complete (uploadFields upload) []

def init (file : Bytes) (name : Value) : Handler Ident := do
  let initialized ← client.request .init (initFields file.length name) []
  uploadId initialized

def upload (file : Bytes) (name : Value) (fuel : Nat) : Option Ident → Handler Result
  | some upload => client.continueUpload digest file fuel upload
  | none => do
      let upload ← client.init file name
      client.continueUpload digest file fuel upload

def fetch (object : Ident) (whole : Manifest) (seq : Nat) : Handler Bytes := do
  let answer ← client.request .download (objectFields object (some seq)) []
  let chunk ← content answer
  let expected : Int := min (whole.chunkSize : Int) (whole.size - seq * whole.chunkSize)
  demand ((chunk.data.length : Int) = expected ∧ (chunk.length : Int) = expected ∧
    some (digest chunk.data) = chunk.sha) .corrupt "invalid downloaded chunk"
  return chunk.data

def fetchAll (object : Ident) (whole : Manifest) : List Nat → Nat → Handler Nat
  | [], total => return total
  | seq :: rest, total => do
      let data ← client.fetch digest object whole seq
      write data
      fetchAll object whole rest (total + data.length)

/-- The content goes to the temporary file, which then takes the target's place. -/
def save (object : Ident) (whole : Manifest) : Handler Unit := do
  let total ← client.fetchAll digest object whole (List.range whole.chunks) 0
  demand (total = whole.size) .corrupt "download length mismatch"
  flush
  replace
  sync

def download (object : Ident) : Handler Unit := do
  let answer ← client.request .manifest (objectFields object none) []
  let whole ← manifest answer
  create
  let saved ← (client.save digest object whole).capture
  discard
  saved

end Account

/-- The target of a download and the temporary file beside it. -/
structure Local where
  target : Option Bytes
  temporary : Option Bytes

/-- What the gateway did for a request, and what became of the client's files. -/
structure Effect where
  exchanges : Exchanges
  change : Local → Local

abbrev ClientExchange := Exchange Call Call.Answer Effect

section Services

variable (digest : Bytes → Sha) (e : Engine)

/-- What becomes of a call.  The configuration of the services may change from
one to the next. -/
inductive Serves : (call : Call) → call.Answer → Effect → Prop where
  | answered {request : Request} {data : Bytes} (c : Config) {trace : Exchanges} {result : Result}
      (executed : Program.Executes (Gateway.Serves digest e c)
        (Gateway.dispatch digest c request data) trace (.ok result)) :
      Serves (.request request data) (.ok result) ⟨trace, id⟩
  /-- The gateway fails, or it is not reached, or gets no further than some of
  its calls, or its answer is lost. -/
  | failed {request : Request} {data : Bytes} (c : Config) {trace : Exchanges}
      {result : Except Failure Result}
      (executed : Program.Executes (Gateway.Serves digest e c)
        (Gateway.dispatch digest c request data) trace result) (reached : Nat)
      (failure : Failure) :
      Serves (.request request data) (.error failure) ⟨trace.take reached, id⟩
  | created : Serves .create (.ok ()) ⟨[], fun files => { files with temporary := some [] }⟩
  | written (data : Bytes) :
      Serves (.write data) (.ok ())
        ⟨[], fun files => { files with temporary := files.temporary.map (· ++ data) }⟩
  | flushed : Serves .flush (.ok ()) ⟨[], id⟩
  | replaced : Serves .replace (.ok ()) ⟨[], fun files => ⟨files.temporary, none⟩⟩
  | synced : Serves .sync (.ok ()) ⟨[], id⟩
  | discarded : Serves .discard (.ok ()) ⟨[], fun files => { files with temporary := none }⟩
  /-- An operation that raises leaves the target alone. -/
  | raised {call : Call} (onFiles : ∀ request data, call ≠ .request request data)
      (failure : Failure) (temporary : Option Bytes) :
      Serves call (call.fail failure) ⟨[], fun files => { files with temporary }⟩

end Services

def transactions (exchange : ClientExchange) : List (Database × Database) :=
  exchange.effect.exchanges.flatMap fun inner => inner.effect.transactions

def filesAfter (trace : List ClientExchange) (files : Local) : Local :=
  trace.foldl (fun files exchange => exchange.effect.change files) files

end FileServer.Client
