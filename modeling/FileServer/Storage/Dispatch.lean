import FileServer.Storage.Directory

/-!
# The storage service

`Storage.__init__` and `Storage.dispatch` as programs over the data directory.
`capacity_lock` is held by one request at a time; `inventory` takes no lock and
reads the directory once.
-/

namespace FileServer.Storage

open FileServer.Files FileServer.Metadata FileServer.Transition

/-- The arguments of `Storage`, with what it uses of the standard library:
SHA-256, the code of a ticket under the secret, and the JSON text of an
identity. -/
structure Store where
  nodeId : NodeId
  secret : String
  capacity : Nat
  writeFault : Bool
  syncFault : Bool
  digest : Bytes → Sha
  mac : Ticket → String
  dumps : NodeId → Ident → Bytes
  loads : Bytes → Option (NodeId × Ident)

structure Process where
  volume : Ident
  inst : Ident
  deriving DecidableEq

structure Authorization where
  claims : Ticket
  mac : String

inductive Command where
  | put | get | stat | remove | other
  deriving DecidableEq

/-- A request with the time at which it is handled.  A field that is absent is
`none`; `receive` bounds the data. -/
structure Request where
  now : Time
  serviceKey : Option String
  cmd : Command
  chunkId : Option Value
  authorization : Option Authorization
  length : Option Value
  sha256 : Option Value
  inst : Option Value
  volume : Option Value
  data : Bytes
  bounded : data.length ≤ 4 * 1024 * 1024

structure Inquiry where
  serviceKey : Option String
  cursor : Option Value

inductive Reply where
  | content (length : Nat) (sha256 : Sha) (data : Bytes)
  | removed
  deriving DecidableEq

/-- `value == number` of a value that is decoded from JSON. -/
def equalsNumber (number : Nat) : Value → Bool
  | .bool value => (if value then 1 else 0) = number
  | .int value => value = number
  | .float (some value) => value = number
  | _ => false

/-- `value[key]`, which raises when the key is absent. -/
def field {α : Type} : Option α → Except Failure α
  | some value => .ok value
  | none => .error .malformed

namespace Store

variable (store : Store)

/-- `while view`, with at most as many writes as there are bytes. -/
def writeAll (fault : Bool) (file : Nat) : Nat → Bytes → Script Unit
  | 0, _ => pure ()
  | _ + 1, [] => pure ()
  | bound + 1, view => do
      if fault then raise .os
      let count ← write file view
      if 0 < count then writeAll fault file bound (view.drop count) else raise .shortWrite

/-- `if os.path.exists(tmp): os.unlink(tmp)`. -/
def discard (temporary : Name) : Script Unit := do
  let there ← present temporary
  if there then unlink temporary

/-- The `try` of `put`; the file is open in its first part only. -/
def publish (file : Nat) (temporary target : Name) (data : Bytes) : Script Unit := do
  Program.recover
    (do
      writeAll store.writeFault file data.length data
      if store.syncFault then raise .os
      fsync file
      close file)
    fun failure => do
      close file
      discard temporary
      raise failure
  Program.ensure
    (do
      link temporary target
      unlink temporary
      syncdir)
    (discard temporary)

def verify (process : Process) (now : Time) (cid : Ident) (authorization : Authorization) :
    Attempt Unit := do
  let claims := authorization.claims
  require (store.mac claims = authorization.mac) ⟨.auth, "bad authorization"⟩
  require (now ≤ claims.expires) ⟨.expired, "authorization expired"⟩
  require (claims.node = store.nodeId ∧ claims.chunk = cid ∧ claims.volume = process.volume ∧
    claims.inst = process.inst) ⟨.auth, "wrong write target"⟩
  let upload ← found claims.upload ⟨.internal, "internal service error"⟩
  require upload.text?.isSome ⟨.internal, "internal service error"⟩
  require upload.ident?.isSome ⟨.auth, "wrong write target"⟩

def put (process : Process) (request : Request) (cid : Ident) : Script Reply := do
  let authorization ← field request.authorization
  check (store.verify process request.now cid authorization)
  let claims := authorization.claims
  let data := request.data
  check (require (data.length = claims.length ∧ store.digest data = claims.sha)
    ⟨.checksum, "content mismatch"⟩)
  let there ← present (.chunk cid)
  if there then
    let stored ← size (.chunk cid)
    check (require (stored = data.length) ⟨.conflict, "immutable chunk length conflict"⟩)
    let existing ← read (.chunk cid)
    check (require (existing.length = data.length ∧ store.digest existing = claims.sha)
      ⟨.conflict, "immutable chunk conflict"⟩)
    -- A retry also synchronises the directory after an uncertain publication.
    syncdir
    return .content data.length (store.digest data) []
  else
    let listed ← entries
    let used := ((listed.filter fun entry => entry.1.isChunk).map Prod.snd).sum
    check (require (used + data.length ≤ store.capacity) ⟨.capacity, "node full"⟩)
    let made ← mkstemp
    store.publish made.1 (.temporary made.2) (.chunk cid) data
    return .content data.length (store.digest data) []

/-- `get`, and `stat`, which returns no content. -/
def get (request : Request) (cid : Ident) : Script Reply := do
  let there ← present (.chunk cid)
  check (require (there = true) ⟨.missing, "chunk absent"⟩)
  let stored ← size (.chunk cid)
  check (require (stored ≤ 4 * 1024 * 1024) ⟨.corrupt, "oversized chunk"⟩)
  let content ← read (.chunk cid)
  let length ← field request.length
  check (require (equalsNumber content.length length = true)
    ⟨.corrupt, "chunk checksum mismatch"⟩)
  let sha256 ← field request.sha256
  check (require (sha256 = .digest (store.digest content)) ⟨.corrupt, "chunk checksum mismatch"⟩)
  return .content content.length (store.digest content)
    (if request.cmd = .get then content else [])

def remove (process : Process) (request : Request) (cid : Ident) : Script Reply := do
  check (require (request.inst = some (.ident process.inst) ∧
    request.volume = some (.ident process.volume)) ⟨.stale, "delete target changed"⟩)
  unlinkAny (.chunk cid)
  syncdir
  return .removed

/-- `Storage.dispatch` under `capacity_lock`. -/
def dispatch (process : Process) (request : Request) : Script Reply := do
  check (require (request.serviceKey.getD "" = store.secret)
    ⟨.auth, "internal credential required"⟩)
  let cid ← check (found (request.chunkId.bind Value.ident?) ⟨.invalid, "invalid chunk ID"⟩)
  match request.cmd with
  | .put => store.put process request cid
  | .get => store.get request cid
  | .stat => store.get request cid
  | .remove => remove process request cid
  | .other => check (.error ⟨.invalid, "unknown storage command"⟩)

/-- The chunk files after the cursor, in order, at most 256 of them, and whether
there are more. -/
def inventory (inquiry : Inquiry) (disk : Disk) : Attempt (List Ident × Bool) := do
  require (inquiry.serviceKey.getD "" = store.secret) ⟨.auth, "internal credential required"⟩
  let cursor ← found ((inquiry.cursor.getD (.text "")).text?) ⟨.invalid, "invalid request"⟩
  require (cursor.length ≤ 32) ⟨.invalid, "invalid request"⟩
  let names := (disk.names.rows.filterMap fun entry =>
    match entry.1 with
    | .chunk cid => if cursor < hexText 32 cid then some cid else none
    | _ => none).insertionSort (· ≤ ·)
  return (names.take 256, decide (256 < names.length))

/-- The identifiers that a start draws. -/
structure Launch where
  volume : Ident
  inst : Ident

def identify (launch : Launch) : Script Ident := do
  let there ← present .identity
  if there then
    let text ← read .identity
    let record ← field (store.loads text)
    if record.1 = store.nodeId then return record.2 else raise .otherNode
  else
    let file ← create .identity
    Program.ensure
      (do
        let text := store.dumps store.nodeId launch.volume
        writeAll false file text.length text
        fsync file)
      (close file)
    syncdir
    return launch.volume

def init (launch : Launch) : Script Process := do
  let volume ← store.identify launch
  let listed ← entries
  Program.each (fun entry => unlink entry.1) (listed.filter fun entry => entry.1.isTemporary)
  syncdir
  return ⟨volume, launch.inst⟩

def server : Server Launch Request Inquiry Call Call.Answer Outcome Damage Disk Process Failure
    Reply where
  performs := perform
  boot := store.init
  handler := store.dispatch
  fail damage disk := disk.fail damage
  initial := .empty

abbrev State := Serving Request Call Call.Answer Disk Process Failure Reply

end Store

end FileServer.Storage
